import Linux011.Block.Requests
import Linux011.Lib.Run

/-!
# Every request is accounted for

Any number of tasks call `ll_rw_block`. A call sleeps in `lock_buffer`, or with the buffer
locked where it has found no empty request; in between the drivers end requests. A buffer
is locked for one reason: a call that has found no empty request holds it, or a request for
it is in one of the slots (`Linux011.Block.Accounted`). So no buffer is in two requests, and
the drivers find at the head of a queue what `INIT_REQUEST` asks for.
-/

namespace Linux011.Block

/-! ### `ll_rw_block` -/

/-- The commands of `ll_rw_block`. -/
inductive Rw
  | read
  | write
  | reada
  | writea

/-- The command of the request. -/
def Rw.cmd : Rw → Cmd
  | .read => .read
  | .write => .write
  | .reada => .read
  | .writea => .write

/-- `rw_ahead`. -/
def Rw.ahead : Rw → Bool
  | .read => false
  | .write => false
  | .reada => true
  | .writea => true

/-- A call that sleeps. -/
inductive Call
  /-- In `lock_buffer`. -/
  | lockBuffer (maj : ℕ) (cmd : Cmd) (ahead : Bool) (bh : ℕ)
  /-- On `wait_for_request`, which it does not where the request is ahead. -/
  | waitForRequest (maj : ℕ) (cmd : Cmd) (bh : ℕ)

/-- The buffer a call has locked. -/
def Call.held : Call → Option ℕ
  | .lockBuffer .. => none
  | .waitForRequest _ _ bh => some bh

/-- The loop of `make_request` that looks for an empty request, from slot `n - 1` down. -/
def emptyRequest (s : Sys) : ℕ → Option ℕ
  | 0 => none
  | n + 1 => if (s.request n).dev < 0 then some n else emptyRequest s n

/-- The slots it looks through: the last third is for reads only. -/
def requestLimit : Cmd → ℕ
  | .read => nrRequest
  | .write => nrRequest * 2 / 3

/-- What is filled into the slot. -/
def fillRequest (cmd : Cmd) (bh : ℕ) (s : Sys) : Request where
  dev := (s.head bh).dev
  cmd := cmd
  errors := 0
  sector := (s.head bh).blocknr * 2 % 0x100000000
  nrSectors := 2
  buffer := (s.head bh).data
  bh := bh
  next := none

/-- `make_request`, from `repeat` on. -/
def repeatRequest (maj : ℕ) (cmd : Cmd) (ahead : Bool) (bh : ℕ) (s : Sys) :
    Option (Sys × Option Call) :=
  match emptyRequest s (requestLimit cmd) with
  | none =>
    if ahead then some (unlockBuffer bh s, none) else some (s, some (.waitForRequest maj cmd bh))
  | some i =>
    (addRequest maj i (s.setRequest i fun _ => fillRequest cmd bh s)).map fun s => (s, none)

/-- `make_request`, from `lock_buffer` on. -/
def lockRequest (maj : ℕ) (cmd : Cmd) (ahead : Bool) (bh : ℕ) (s : Sys) :
    Option (Sys × Option Call) :=
  if (s.head bh).lock then some (s, some (.lockBuffer maj cmd ahead bh))
  else
    let s := s.setHead bh fun h => { h with lock := true }
    if (cmd = .write ∧ (s.head bh).dirt = false) ∨ (cmd = .read ∧ (s.head bh).uptodate = true) then
      some (unlockBuffer bh s, none)
    else repeatRequest maj cmd ahead bh s

/-- `make_request`. -/
def makeRequest (maj : ℕ) (rw : Rw) (bh : ℕ) (s : Sys) : Option (Sys × Option Call) :=
  if rw.ahead = true ∧ (s.head bh).lock = true then some (s, none)
  else lockRequest maj rw.cmd rw.ahead bh s

/-- `ll_rw_block`. What comes out of it is the call, where it sleeps; `none` where the search of
`add_request` does not end. -/
def llRwBlock (rw : Rw) (bh : ℕ) (s : Sys) : Option (Sys × Option Call) :=
  if nrBlkDev ≤ major (s.head bh).dev ∨ s.requestFn (major (s.head bh).dev) = false then
    some (s, none)
  else makeRequest (major (s.head bh).dev) rw bh s

/-- A call goes on. -/
def Call.resume : Call → Sys → Option (Sys × Option Call)
  | .lockBuffer maj cmd ahead bh => lockRequest maj cmd ahead bh
  | .waitForRequest maj cmd bh => repeatRequest maj cmd false bh

/-- **The requests and the calls that sleep**, of any number of tasks. -/
structure State where
  sys : Sys
  call : ℕ → Option Call

namespace State

/-- **A step**: a task calls `ll_rw_block` or goes on where it slept, a driver ends its request,
or somebody changes what a buffer says of its content. -/
inductive Step (s : State) : State → Prop
  | call {t : ℕ} {rw : Rw} {bh : ℕ} {sys : Sys} {c : Option Call} (hidle : s.call t = none)
      (hs : llRwBlock rw bh s.sys = some (sys, c)) : Step s ⟨sys, Function.update s.call t c⟩
  | resume {t : ℕ} {c : Call} {sys : Sys} {c' : Option Call} (hc : s.call t = some c)
      (hs : c.resume s.sys = some (sys, c')) : Step s ⟨sys, Function.update s.call t c'⟩
  | ended {maj : ℕ} {up : Bool} {sys : Sys} (hs : endRequest maj up s.sys = some sys) :
      Step s ⟨sys, s.call⟩
  | mark {bh : ℕ} {up dirt : Bool} :
      Step s ⟨s.sys.setHead bh fun h => { h with uptodate := up, dirt := dirt }, s.call⟩

/-- No call has been made, and no buffer is locked. -/
def Start (s : State) : Prop := ∃ fn head, s = ⟨blkDevInit fn head, fun _ => none⟩ ∧
  ∀ b, (head b).lock = false

/-- The buffers the calls have locked. -/
def held (s : State) (t : ℕ) : Option ℕ := (s.call t).bind Call.held

end State

/-- **Every lock is accounted for.** -/
structure Accounted (s : Sys) (q : ℕ → List ℕ) (held : ℕ → Option ℕ) : Prop where
  queued : Queued s q
  driver : ∀ maj, q maj ≠ [] → maj < nrBlkDev
  locked : ∀ maj i, i ∈ q maj → (s.head (s.request i).bh).lock = true
  distinct : ∀ maj maj' i j, i ∈ q maj → j ∈ q maj' → (s.request i).bh = (s.request j).bh → i = j
  low : ∀ maj i, i ∈ q maj → (s.request i).cmd = .write → i < nrRequest * 2 / 3
  heldLocked : ∀ t b, held t = some b → (s.head b).lock = true
  heldDistinct : ∀ t t' b, held t = some b → held t' = some b → t = t'
  heldFree : ∀ t b maj i, held t = some b → i ∈ q maj → (s.request i).bh ≠ b

/-- The major number of a call is that of its buffer, and there is such a driver. -/
def Call.Routed (s : Sys) : Call → Prop
  | .lockBuffer maj _ _ bh => major (s.head bh).dev = maj ∧ maj < nrBlkDev
  | .waitForRequest maj _ bh => major (s.head bh).dev = maj ∧ maj < nrBlkDev

variable {s s' : Sys} {q : ℕ → List ℕ} {held : ℕ → Option ℕ} {maj i b bh t : ℕ} {cmd : Cmd}
  {ahead : Bool}

theorem Call.routed_congr (hdev : ∀ b, (s'.head b).dev = (s.head b).dev) {c : Call} :
    c.Routed s' ↔ c.Routed s := by
  cases c with
  | lockBuffer maj cmd ahead bh => rw [Call.Routed, Call.Routed, hdev]
  | waitForRequest maj cmd bh => rw [Call.Routed, Call.Routed, hdev]

/-! ### The search for an empty request -/

theorem emptyRequest_eq_some {n : ℕ} (h : emptyRequest s n = some i) :
    i < n ∧ (s.request i).dev < 0 := by
  induction n with
  | zero => cases h
  | succ n ih =>
    rw [emptyRequest] at h
    split at h
    · next hn =>
      obtain rfl := Option.some.inj h
      exact ⟨Nat.lt_succ_self n, hn⟩
    · obtain ⟨hi, hd⟩ := ih h
      exact ⟨Nat.lt_succ_of_lt hi, hd⟩

theorem requestLimit_le (cmd : Cmd) : requestLimit cmd ≤ nrRequest := by
  cases cmd with
  | read => exact Nat.le_refl _
  | write => decide

/-! ### What keeps the account -/

namespace Accounted

/-- The flags of a buffer change, but not the lock. -/
theorem mark (h : Accounted s q held) {f : BufferHead → BufferHead}
    (hf : ∀ h, (f h).lock = h.lock) : Accounted (s.setHead b f) q held := by
  have hlock : ∀ b', ((s.setHead b f).head b').lock = (s.head b').lock := by
    intro b'
    rw [Sys.head_setHead]
    split
    · next hb => rw [hf, hb]
    · rfl
  refine ⟨⟨h.queued.chain, h.queued.nodup, h.queued.mem⟩, h.driver, fun maj i hi => ?_,
    h.distinct, h.low, fun t b' hb => ?_, h.heldDistinct, h.heldFree⟩
  · rw [hlock]
    exact h.locked maj i hi
  · rw [hlock]
    exact h.heldLocked t b' hb

/-- **A task locks a buffer** that nobody has locked. -/
theorem lock (h : Accounted s q held) (hb : (s.head bh).lock = false) :
    Accounted (s.setHead bh fun h => { h with lock := true }) q
      (Function.update held t (some bh)) := by
  have hlock : ∀ b', (s.head b').lock = true →
      ((s.setHead bh fun h => { h with lock := true }).head b').lock = true := by
    intro b' hb'
    rw [Sys.head_setHead]
    split
    · rfl
    · exact hb'
  have hother : ∀ t', held t' ≠ some bh := by
    intro t' ht'
    have := h.heldLocked t' bh ht'
    rw [hb] at this
    cases this
  have hheld : ∀ t' b', Function.update held t (some bh) t' = some b' →
      (t' = t ∧ b' = bh) ∨ held t' = some b' := by
    intro t' b' ht'
    rw [Function.update_apply] at ht'
    split at ht'
    · next htt => exact Or.inl ⟨htt, (Option.some.inj ht').symm⟩
    · exact Or.inr ht'
  refine ⟨⟨h.queued.chain, h.queued.nodup, h.queued.mem⟩, h.driver, fun maj i hi => ?_,
    h.distinct, h.low, fun t' b' ht' => ?_, fun t₁ t₂ b' h₁ h₂ => ?_, fun t' b' maj i ht' hi => ?_⟩
  · exact hlock _ (h.locked maj i hi)
  · rcases hheld t' b' ht' with ⟨-, rfl⟩ | ht'
    · rw [Sys.head_setHead, if_pos rfl]
    · exact hlock _ (h.heldLocked t' b' ht')
  · rcases hheld t₁ b' h₁ with ⟨ht₁, hb₁⟩ | hold₁ <;> rcases hheld t₂ b' h₂ with ⟨ht₂, hb₂⟩ | hold₂
    · exact ht₁.trans ht₂.symm
    · exact absurd (hb₁ ▸ hold₂) (hother t₂)
    · exact absurd (hb₂ ▸ hold₁) (hother t₁)
    · exact h.heldDistinct t₁ t₂ b' hold₁ hold₂
  · rcases hheld t' b' ht' with ⟨-, rfl⟩ | ht'
    · intro hbh
      have hl := h.locked maj i hi
      change (s.request i).bh = b' at hbh
      rw [hbh, hb] at hl
      cases hl
    · exact h.heldFree t' b' maj i ht' hi

/-- What a task holds no longer. -/
theorem released {t' : ℕ} (h : Function.update held t none t' = some b) :
    t' ≠ t ∧ held t' = some b := by
  rw [Function.update_apply] at h
  split at h
  · cases h
  · next hne => exact ⟨hne, h⟩

/-- **A task unlocks the buffer** it has locked. -/
theorem unlock (h : Accounted s q held) (ht : held t = some bh) :
    Accounted (unlockBuffer bh s) q (Function.update held t none) := by
  have hlock : ∀ b', b' ≠ bh → (s.head b').lock = true →
      ((unlockBuffer bh s).head b').lock = true := by
    intro b' hne hb'
    rw [unlockBuffer, Sys.head_setHead, if_neg hne]
    exact hb'
  refine ⟨⟨h.queued.chain, h.queued.nodup, h.queued.mem⟩, h.driver, fun maj i hi => ?_,
    h.distinct, h.low, fun t' b' ht' => ?_, fun t₁ t₂ b' h₁ h₂ => ?_, fun t' b' maj i ht' hi => ?_⟩
  · exact hlock _ (h.heldFree t bh maj i ht hi) (h.locked maj i hi)
  · obtain ⟨hne, ht'⟩ := released ht'
    refine hlock b' ?_ (h.heldLocked t' b' ht')
    rintro rfl
    exact hne (h.heldDistinct t' t b' ht' ht)
  · exact h.heldDistinct t₁ t₂ b' (released h₁).2 (released h₂).2
  · exact h.heldFree t' b' maj i (released ht').2 hi

/-- **The lock goes over to a request.** -/
theorem add (h : Accounted s q held) (ht : held t = some bh) (hfree : (s.request i).dev < 0)
    (hlt : i < requestLimit cmd) (hmaj : major (s.head bh).dev = maj) (hdrv : maj < nrBlkDev) :
    ∃ s' q', addRequest maj i (s.setRequest i fun _ => fillRequest cmd bh s) = some s' ∧
      Accounted s' q' (Function.update held t none) ∧
      ∀ b, (s'.head b).dev = (s.head b).dev := by
  obtain ⟨r, hr⟩ : ∃ r, r = fillRequest cmd bh s := ⟨_, rfl⟩
  have hdev : 0 ≤ r.dev := by
    rw [hr]
    exact Int.natCast_nonneg _
  have hrmaj : major r.dev = maj := by
    rw [hr]
    exact hmaj
  rw [← hr]
  obtain ⟨s', hs', hadd, hq'⟩ :=
    h.queued.addRequest hfree (Nat.lt_of_lt_of_le hlt (requestLimit_le cmd)) hdev hrmaj
  obtain ⟨l, hl⟩ : ∃ l, l = place (s.setRequest i fun _ => r).slotsInOrder i (q maj) := ⟨_, rfl⟩
  rw [← hl] at hq'
  -- what is on the queues now, and for which buffer
  have hmem : ∀ maj' j, j ∈ Function.update q maj l maj' →
      (maj' = maj ∧ j = i ∧ (s'.request j).bh = bh ∧ (s'.request j).cmd = cmd) ∨
      (j ∈ q maj' ∧ (s'.request j).bh = (s.request j).bh ∧
        (s'.request j).cmd = (s.request j).cmd) := by
    intro maj' j hj
    have hcases : (maj' = maj ∧ j = i) ∨ j ∈ q maj' := by
      rw [Function.update_apply] at hj
      split at hj
      · next hm =>
        rw [hl, (place_perm i (q maj)).mem_iff, List.mem_cons] at hj
        rw [hm]
        exact hj.imp_left fun hji => ⟨rfl, hji⟩
      · exact Or.inr hj
    rw [hadd.request j, Sys.request_setRequest]
    rcases hcases with ⟨hm, hji⟩ | hj
    · rw [if_pos hji, hr]
      exact Or.inl ⟨hm, hji, rfl, rfl⟩
    · rw [if_neg (ne_of_mem_of_not_mem hj (h.queued.free hfree))]
      exact Or.inr ⟨hj, rfl, rfl⟩
  have hlock : ∀ b', (s'.head b').lock = (s.head b').lock := by
    intro b'
    rw [hadd.head]
    split
    · rfl
    · rfl
  have hlk : (s.head bh).lock = true := h.heldLocked t bh ht
  refine ⟨s', _, hs', ⟨hq', fun maj' hne => ?_, fun maj' j hj => ?_, fun m₁ m₂ j k hj hk hbh => ?_,
    fun maj' j hj hw => ?_, fun t' b' ht' => ?_, fun t₁ t₂ b' h₁ h₂ => ?_,
    fun t' b' maj' j ht' hj => ?_⟩, fun b' => ?_⟩
  · rw [Function.update_apply] at hne
    split at hne
    · next hm => exact hm ▸ hdrv
    · exact h.driver maj' hne
  · rw [hlock]
    rcases hmem maj' j hj with ⟨-, -, hb, -⟩ | ⟨hj, hb, -⟩
    · rw [hb]
      exact hlk
    · rw [hb]
      exact h.locked maj' j hj
  · rcases hmem m₁ j hj with ⟨-, hji, hb, -⟩ | ⟨hj, hb, -⟩ <;>
      rcases hmem m₂ k hk with ⟨-, hki, hb', -⟩ | ⟨hk, hb', -⟩ <;> rw [hb, hb'] at hbh
    · exact hji.trans hki.symm
    · exact absurd hbh.symm (h.heldFree t bh m₂ k ht hk)
    · exact absurd hbh (h.heldFree t bh m₁ j ht hj)
    · exact h.distinct m₁ m₂ j k hj hk hbh
  · rcases hmem maj' j hj with ⟨-, hji, -, hc⟩ | ⟨hj, -, hc⟩
    · rw [hc] at hw
      rw [hw] at hlt
      rw [hji]
      exact hlt
    · exact h.low maj' j hj (hc ▸ hw)
  · rw [hlock]
    exact h.heldLocked t' b' (released ht').2
  · exact h.heldDistinct t₁ t₂ b' (released h₁).2 (released h₂).2
  · obtain ⟨hne, ht'⟩ := released ht'
    rcases hmem maj' j hj with ⟨-, -, hb, -⟩ | ⟨hj, hb, -⟩
    · rw [hb]
      rintro rfl
      exact hne (h.heldDistinct t' t bh ht' ht)
    · rw [hb]
      exact h.heldFree t' b' maj' j ht' hj
  · rw [hadd.head]
    split
    · rfl
    · rfl

/-- **A request ends**, and its buffer is unlocked. -/
theorem ended (h : Accounted s q held) {up : Bool} (he : endRequest maj up s = some s') :
    ∃ q', Accounted s' q' held ∧ ∀ b, (s'.head b).dev = (s.head b).dev := by
  obtain ⟨i, rest, hqm, hend, hq'⟩ := h.queued.endRequest he
  have hi : i ∈ q maj := hqm ▸ List.mem_cons_self
  have hnd := h.queued.nodup maj
  rw [hqm] at hnd
  have hmem : ∀ maj' j, j ∈ Function.update q maj rest maj' →
      j ∈ q maj' ∧ j ≠ i ∧ s'.request j = s.request j := by
    intro maj' j hj
    have hold : j ∈ q maj' ∧ j ≠ i := by
      rw [Function.update_apply] at hj
      split at hj
      · next hm =>
        refine ⟨?_, ne_of_mem_of_not_mem hj (List.nodup_cons.mp hnd).1⟩
        rw [hm, hqm]
        exact List.mem_cons_of_mem i hj
      · next hm =>
        refine ⟨hj, ?_⟩
        rintro rfl
        exact hm (h.queued.disjoint hj hi)
    rw [hend.request, if_neg hold.2]
    exact ⟨hold.1, hold.2, rfl⟩
  have hlock : ∀ b', b' ≠ (s.request i).bh → (s'.head b').lock = (s.head b').lock := by
    intro b' hne
    rw [hend.head, if_neg hne]
  refine ⟨_, ⟨hq', fun maj' hne => ?_, fun maj' j hj => ?_, fun m₁ m₂ j k hj hk hbh => ?_,
    fun maj' j hj hw => ?_, fun t' b' ht' => ?_, h.heldDistinct, fun t' b' maj' j ht' hj => ?_⟩,
    fun b' => ?_⟩
  · rw [Function.update_apply] at hne
    split at hne
    · next hm =>
      refine h.driver maj' ?_
      rw [hm, hqm]
      exact List.cons_ne_nil i rest
    · exact h.driver maj' hne
  · obtain ⟨hj, hne, hr⟩ := hmem maj' j hj
    rw [hr, hlock]
    · exact h.locked maj' j hj
    · exact fun hbh => hne (h.distinct maj' maj j i hj hi hbh)
  · obtain ⟨hj, -, hr⟩ := hmem m₁ j hj
    obtain ⟨hk, -, hr'⟩ := hmem m₂ k hk
    rw [hr, hr'] at hbh
    exact h.distinct m₁ m₂ j k hj hk hbh
  · obtain ⟨hj, -, hr⟩ := hmem maj' j hj
    exact h.low maj' j hj (hr ▸ hw)
  · rw [hlock b' (h.heldFree t' b' maj i ht' hi).symm]
    exact h.heldLocked t' b' ht'
  · obtain ⟨hj, -, hr⟩ := hmem maj' j hj
    rw [hr]
    exact h.heldFree t' b' maj' j ht' hj
  · rw [hend.head]
    split
    · rfl
    · rfl

/-! ### A call -/

/-- What a run of a call comes to: the account is kept, the devices of the buffers stay, and
where the call sleeps it is routed as before. -/
def Goes (m : Option (Sys × Option Call)) (s : Sys) (held : ℕ → Option ℕ) (t : ℕ) : Prop :=
  ∃ s' c q', m = some (s', c) ∧ Accounted s' q' (Function.update held t (c.bind Call.held)) ∧
    (∀ b, (s'.head b).dev = (s.head b).dev) ∧ ∀ c' ∈ c, c'.Routed s

theorem repeatRequest (h : Accounted s q held) (ht : held t = some bh)
    (hmaj : major (s.head bh).dev = maj) (hdrv : maj < nrBlkDev) :
    Goes (repeatRequest maj cmd ahead bh s) s held t := by
  unfold Block.repeatRequest
  cases hempty : emptyRequest s (requestLimit cmd) with
  | none =>
    dsimp only
    cases ahead with
    | true =>
      refine ⟨_, none, q, rfl, h.unlock ht, fun b => ?_, fun c' hc' => by cases hc'⟩
      rw [unlockBuffer, Sys.head_setHead]
      split
      · next hb => rw [hb]
      · rfl
    | false =>
      refine ⟨s, _, q, rfl, ?_, fun _ => rfl, fun c' hc' => ?_⟩
      · have hsame : Function.update held t (some bh) = held := by
          rw [← ht]
          exact Function.update_eq_self t held
        exact hsame.symm ▸ h
      · obtain rfl := Option.some.inj hc'
        exact ⟨hmaj, hdrv⟩
  | some i =>
    obtain ⟨hlt, hfree⟩ := emptyRequest_eq_some hempty
    obtain ⟨s', q', hs', hacc, hdev⟩ := h.add ht hfree hlt hmaj hdrv
    refine ⟨s', none, q', ?_, hacc, hdev, fun c' hc' => by cases hc'⟩
    dsimp only
    rw [hs']
    rfl

theorem lockRequest (h : Accounted s q held) (ht : held t = none)
    (hmaj : major (s.head bh).dev = maj) (hdrv : maj < nrBlkDev) :
    Goes (lockRequest maj cmd ahead bh s) s held t := by
  have hsame : Function.update held t none = held := by
    rw [← ht]
    exact Function.update_eq_self t held
  unfold Block.lockRequest
  split
  · refine ⟨s, _, q, rfl, ?_, fun _ => rfl, fun c' hc' => ?_⟩
    · exact hsame.symm ▸ h
    · obtain rfl := Option.some.inj hc'
      exact ⟨hmaj, hdrv⟩
  · next hl =>
    obtain ⟨s₁, hs₁⟩ : ∃ s₁, s₁ = s.setHead bh fun h => { h with lock := true } := ⟨_, rfl⟩
    have hacc : Accounted s₁ q (Function.update held t (some bh)) :=
      hs₁ ▸ h.lock (Bool.eq_false_iff.mpr hl)
    have hdev : ∀ b, (s₁.head b).dev = (s.head b).dev := by
      intro b
      rw [hs₁, Sys.head_setHead]
      split
      · next hb => rw [hb]
      · rfl
    have hupd : ∀ x, Function.update (Function.update held t (some bh)) t x =
        Function.update held t x := fun x => Function.update_idem _ _ _
    dsimp only
    rw [← hs₁]
    split
    · refine ⟨_, none, q, rfl, hupd none ▸ hacc.unlock (Function.update_self ..), fun b => ?_,
        fun c' hc' => by cases hc'⟩
      rw [unlockBuffer, Sys.head_setHead, ← hdev b]
      split
      · next hb => rw [hb]
      · rfl
    · have hgo : Goes (Block.repeatRequest maj cmd ahead bh s₁) s₁ _ t :=
        hacc.repeatRequest (Function.update_self ..) (hdev bh ▸ hmaj) hdrv
      obtain ⟨s', c, q', hs', hacc', hdev', hc⟩ := hgo
      refine ⟨s', c, q', hs', hupd _ ▸ hacc', fun b => (hdev' b).trans (hdev b), fun c' hc' => ?_⟩
      exact (Call.routed_congr hdev).mp (hc c' hc')

/-- `ll_rw_block`, of a task that is in no call. -/
theorem llRwBlock (h : Accounted s q held) (ht : held t = none) (rw : Rw) (bh : ℕ) :
    Goes (llRwBlock rw bh s) s held t := by
  have hstay : Goes (some (s, none)) s held t := by
    refine ⟨s, none, q, rfl, ?_, fun _ => rfl, fun c' hc' => by cases hc'⟩
    have hsame : Function.update held t none = held := by
      rw [← ht]
      exact Function.update_eq_self t held
    exact hsame.symm ▸ h
  unfold Block.llRwBlock
  split
  · exact hstay
  · next hdrv =>
    unfold makeRequest
    split
    · exact hstay
    · exact h.lockRequest ht rfl (Nat.lt_of_not_le fun hle => hdrv (Or.inl hle))

/-- A call goes on where it slept. -/
theorem resume (h : Accounted s q held) {c : Call} (ht : held t = c.held) (hr : c.Routed s) :
    Goes (c.resume s) s held t := by
  cases c with
  | lockBuffer maj cmd ahead bh => exact h.lockRequest ht hr.1 hr.2
  | waitForRequest maj cmd bh => exact h.repeatRequest ht hr.1 hr.2

end Accounted

/-! ### Runs -/

namespace State

variable {s s' : State}

/-- **What every step keeps.** -/
def Ok (s : State) : Prop :=
  (∃ q, Accounted s.sys q s.held) ∧ ∀ t c, s.call t = some c → c.Routed s.sys

theorem Start.ok (h : s.Start) : s.Ok := by
  obtain ⟨fn, head, rfl, hlock⟩ := h
  refine ⟨⟨fun _ => [], .init fn head, fun maj h => absurd rfl h, ?_, ?_, ?_, ?_, ?_, ?_⟩,
    fun t c hc => by cases hc⟩
  · intro maj i hi
    cases hi
  · intro maj maj' i j hi
    cases hi
  · intro maj i hi
    cases hi
  · intro t b hb
    cases hb
  · intro t t' b hb
    cases hb
  · intro t b maj i hb
    cases hb

theorem held_update (sys : Sys) (t : ℕ) (c : Option Call) :
    State.held ⟨sys, Function.update s.call t c⟩ = Function.update s.held t (c.bind Call.held) := by
  ext1 t'
  change (Function.update s.call t c t').bind Call.held = _
  rw [Function.update_apply, Function.update_apply]
  split
  · rfl
  · rfl

theorem Ok.goes (h : s.Ok) {m : Option (Sys × Option Call)} {t : ℕ} {sys : Sys} {c : Option Call}
    (hm : Accounted.Goes m s.sys s.held t) (hs : m = some (sys, c)) :
    Ok ⟨sys, Function.update s.call t c⟩ := by
  obtain ⟨sys', c', q', hm', hacc, hdev, hc⟩ := hm
  obtain ⟨rfl, rfl⟩ := Prod.mk.inj (Option.some.inj (hs.symm.trans hm'))
  refine ⟨⟨q', ?_⟩, fun t' d hd => (Call.routed_congr hdev).mpr ?_⟩
  · rw [held_update]
    exact hacc
  · change Function.update s.call t c t' = some d at hd
    rw [Function.update_apply] at hd
    split at hd
    · exact hc d hd
    · exact h.2 t' d hd

theorem Ok.call (h : s.Ok) {t : ℕ} (ht : s.call t = none) (rw : Rw) (bh : ℕ) :
    Accounted.Goes (llRwBlock rw bh s.sys) s.sys s.held t := by
  obtain ⟨⟨q, hq⟩, -⟩ := h
  refine hq.llRwBlock ?_ rw bh
  rw [State.held, ht]
  rfl

theorem Ok.resume (h : s.Ok) {t : ℕ} {c : Call} (hc : s.call t = some c) :
    Accounted.Goes (c.resume s.sys) s.sys s.held t := by
  obtain ⟨⟨q, hq⟩, hr⟩ := h
  refine hq.resume ?_ (hr t c hc)
  rw [State.held, hc]
  rfl

theorem Ok.step (h : s.Ok) (hs : Step s s') : s'.Ok := by
  cases hs with
  | call hidle hs => exact h.goes (h.call hidle _ _) hs
  | resume hc hs => exact h.goes (h.resume hc) hs
  | ended hs =>
    obtain ⟨⟨q, hq⟩, hr⟩ := h
    obtain ⟨q', hq', hdev⟩ := hq.ended hs
    exact ⟨⟨q', hq'⟩, fun t c hc => (Call.routed_congr hdev).mpr (hr t c hc)⟩
  | @mark bh up dirt =>
    obtain ⟨⟨q, hq⟩, hr⟩ := h
    have hmark : Accounted (s.sys.setHead bh fun h => { h with uptodate := up, dirt := dirt }) q
        s.held := hq.mark fun _ => rfl
    refine ⟨⟨q, hmark⟩, fun t c hc => (Call.routed_congr fun b => ?_).mpr (hr t c hc)⟩
    rw [Sys.head_setHead]
    split
    · next hb => rw [hb]
    · rfl

end State

end Linux011.Block
