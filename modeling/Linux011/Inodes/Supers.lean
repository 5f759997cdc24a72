import Linux011.Inodes.References

/-!
# Super blocks in use

What becomes of the count of references (`Linux011.Inodes.Mounting.Inv`) when a device is mounted
and unmounted: a reference to the directory becomes a claim of the super block, and the claim a
reference of the call that unmounts it.
-/

namespace Linux011.Inodes.Mounting

variable {w : World} {refs : List ℕ} {f : Frame} {F R : List Frame} {i j k d : ℕ}
  {u : Option (ℕ × ℕ)} {U U' : ℕ → ℕ} {b : Super → Super}

/-! ### A store into one super block -/

@[simp] theorem setSuper_self (w : World) (k : ℕ) (b : Super → Super) :
    (w.setSuper k b).super k = b (w.super k) := Function.update_self ..

theorem setSuper_of_ne (w : World) (b : Super → Super) (h : j ≠ k) :
    (w.setSuper k b).super j = w.super j := Function.update_of_ne h ..

/-- **`get_super`** finds the device in use, and need not wait. -/
theorem Inv.getSuper (h : Inv w refs F) (hl : Live w U d) :
    ∃ k, w.getSuper d = some k ∧ LiveAt w U k ∧ (w.super k).dev = d := by
  obtain ⟨k, hk, hd⟩ := hl
  have hd0 : d ≠ 0 := hd ▸ hk.dev
  rw [World.getSuper, if_neg hd0]
  cases hfind : (List.range nrSuper).find? fun k => (w.super k).dev = d with
  | none =>
    rw [List.find?_eq_none] at hfind
    have := hfind k (List.mem_range.mpr hk.lt)
    exact absurd hd (by simpa using this)
  | some k' =>
    have hmem := List.mem_range.mp (List.mem_of_find?_eq_some hfind)
    have hd' : (w.super k').dev = d := by simpa using List.find?_some hfind
    have hkk : k = k' := h.devs k k' hk.lt hmem hk.dev (hd.trans hd'.symm)
    exact ⟨k, by rw [hkk], hk, hd⟩

theorem getSuper_spec (h : w.getSuper d = some k) : k < nrSuper ∧ (w.super k).dev = d ∧ d ≠ 0 := by
  rw [World.getSuper] at h
  split at h
  · cases h
  · next hd =>
    refine ⟨List.mem_range.mp (List.mem_of_find?_eq_some h), ?_, hd⟩
    simpa using List.find?_some h

/-- **A store into one super block**, by a call that becomes others: what is known of the rest of
them stays. -/
theorem Inv.storeSuper (h : Inv w refs F)
    (hH : ∀ j, total Frame.holds R j ≤ total Frame.holds F j)
    (hC : ∀ j, total Frame.claims R j ≤ total Frame.claims F j)
    (hpins : ∀ j, pins (w.setSuper k b) (total Frame.unmounts R) j ≤
      pins w (total Frame.unmounts F) j)
    (hnone : ¬LiveAt w (total Frame.unmounts F) k)
    (hU : ∀ j, j ≠ k → total Frame.unmounts R j = total Frame.unmounts F j)
    (hU1 : total Frame.unmounts R k ≤ 1)
    (hdev : ∀ j, k < nrSuper → j < nrSuper → (b (w.super k)).dev ≠ 0 →
      (b (w.super k)).dev = (w.super j).dev → j = k)
    (hL : ∀ j, j ≠ k → total Frame.locks R j = total Frame.locks F j)
    (hL1 : total Frame.locks R k = if (b (w.super k)).lock then 1 else 0)
    (hframes : ∀ f ∈ R, (f ∈ F ∧ k ∉ f.unmounts ∧ k ∉ f.locks) ∨
      FrameOk (w.setSuper k b) (total Frame.unmounts R) f) :
    Inv (w.setSuper k b) refs R := by
  have hlive : ∀ j, LiveAt w (total Frame.unmounts F) j →
      LiveAt (w.setSuper k b) (total Frame.unmounts R) j ∧
        ((w.setSuper k b).super j).dev = (w.super j).dev := by
    intro j hj
    have hne : j ≠ k := fun heq => hnone (heq ▸ hj)
    rw [setSuper_of_ne w b hne]
    refine ⟨⟨hj.lt, ?_, ?_, ?_⟩, rfl⟩
    · rw [setSuper_of_ne w b hne]
      exact hj.dev
    · rw [setSuper_of_ne w b hne]
      exact hj.lock
    · rw [hU j hne]
      exact hj.unmounts
  constructor
  · intro j
    have := h.count j
    have := hH j
    have := hpins j
    change _ ≤ (w.slot j).count
    omega
  · intro j
    have := h.claim j
    have := hC j
    have := hpins j
    omega
  · exact h.clean
  · exact h.idle
  · exact h.blank
  · exact h.table
  · exact h.real
  · exact fun j h0 h1 => (h.live j h0 h1).mono fun k' hk' _ => hlive k' hk'
  · intro i j hi hj h0 heq
    by_cases hik : i = k
    · by_cases hjk : j = k
      · rw [hik, hjk]
      · subst hik
        rw [setSuper_self] at h0 heq
        rw [setSuper_of_ne w b hjk] at heq
        exact (hdev j hi hj h0 heq).symm
    · rw [setSuper_of_ne w b hik] at h0 heq
      by_cases hjk : j = k
      · subst hjk
        rw [setSuper_self] at heq
        exact hdev i hj hi (heq ▸ h0) heq.symm
      · rw [setSuper_of_ne w b hjk] at heq
        exact h.devs i j hi hj h0 heq
  · intro j
    by_cases hjk : j = k
    · rw [hjk, setSuper_self]
      exact hL1
    · rw [setSuper_of_ne w b hjk, hL j hjk]
      exact h.locks j
  · intro j
    by_cases hjk : j = k
    · rw [hjk]
      exact hU1
    · rw [hU j hjk]
      exact h.once j
  · intro i hi
    obtain ⟨j, hj, hl⟩ := h.mount i hi
    have hne : j ≠ k := fun heq => hnone (heq ▸ hl)
    refine ⟨j, ?_, (hlive j hl).1⟩
    rw [setSuper_of_ne w b hne]
    exact hj
  · intro f hf
    rcases hframes f hf with ⟨hf', hun, hlk⟩ | hok
    · refine (h.frames f hf').mono (fun _ _ => ⟨rfl, rfl⟩)
        (fun _ _ hb => ⟨hb.dev, hb.pipe, hb.count, hb.lt⟩)
        (fun j hj _ => hlive j hj) (fun j hj => ?_) fun j hj => ?_
      · have hne : j ≠ k := fun heq => hun (heq ▸ hj)
        exact setSuper_of_ne w b hne
      · have hne : j ≠ k := fun heq => hlk (heq ▸ hj)
        rw [setSuper_of_ne w b hne]
    · exact hok

/-! ### Who unmounts, and who has locked -/

/-- A super block that a call unmounts has its inode, and is not locked. -/
theorem FrameOk.unmounts (h : FrameOk w U f) (hk : k ∈ f.unmounts) :
    (w.super k).dev ≠ 0 ∧ (w.super k).lock = false ∧ (w.super k).imount ≠ none := by
  have hmounted : ∀ i v, Mounted w i (some v) → k = v.1 →
      (w.super k).dev ≠ 0 ∧ (w.super k).lock = false ∧ (w.super k).imount ≠ none := by
    intro i v hm hkv
    obtain ⟨-, himount, hdev, hd, hlock⟩ := hm v.1 v.2 rfl
    rw [hkv, himount]
    exact ⟨hdev ▸ hd, hlock, Option.some_ne_none i⟩
  cases f with
  | iput i u =>
    cases u with
    | none => cases hk
    | some v => exact hmounted i v h (List.mem_singleton.mp hk)
  | iputRepeat i u =>
    cases u with
    | none => cases hk
    | some v => exact hmounted i v h.1 (List.mem_singleton.mp hk)
  | truncate i u =>
    cases u with
    | none => cases hk
    | some v => exact hmounted i v h.1 (List.mem_singleton.mp hk)
  | _ => cases hk

/-- Nobody unmounts a super block for which that cannot be. -/
theorem Inv.unmounts_zero (h : Inv w refs F)
    (hk : (w.super k).dev = 0 ∨ (w.super k).lock = true ∨ (w.super k).imount = none) :
    total Frame.unmounts F k = 0 := by
  by_contra hne
  obtain ⟨f, hf, hmem⟩ := List.mem_flatMap.mp (List.count_pos_iff.mp (Nat.pos_of_ne_zero hne))
  obtain ⟨hdev, hlock, himount⟩ := (h.frames f hf).unmounts hmem
  rcases hk with hk | hk | hk
  · exact hdev hk
  · rw [hlock] at hk
    exact absurd hk Bool.false_ne_true
  · exact himount hk

/-- A call that unmounts has the inode that the super block is mounted on. -/
theorem FrameOk.claims (h : FrameOk w U f) (hk : k ∈ f.unmounts) :
    ∃ i ∈ f.claims, (w.super k).imount = some i := by
  cases f with
  | iput i u =>
    cases u with
    | none => cases hk
    | some v =>
      rw [List.mem_singleton.mp hk]
      exact ⟨i, List.mem_singleton_self i, (h v.1 v.2 rfl).2.1⟩
  | iputRepeat i u =>
    cases u with
    | none => cases hk
    | some v =>
      rw [List.mem_singleton.mp hk]
      exact ⟨i, List.mem_singleton_self i, (h.1 v.1 v.2 rfl).2.1⟩
  | truncate i u =>
    cases u with
    | none => cases hk
    | some v =>
      rw [List.mem_singleton.mp hk]
      exact ⟨i, List.mem_singleton_self i, (h.1 v.1 v.2 rfl).2.1⟩
  | _ => cases hk

theorem mem_pins (hlt : k < nrSuper) (hm : (w.super k).imount = some i) (hu : U k = 0) :
    k ∈ (List.range nrSuper).filter fun k => (w.super k).imount = some i ∧ U k = 0 := by
  rw [List.mem_filter, decide_eq_true_eq]
  exact ⟨List.mem_range.mpr hlt, hm, hu⟩

/-- **What is mounted on an inode is in use.** -/
theorem Inv.sbOf (h : Inv w refs F) (hm : (w.slot i).mount = true) (hsb : w.sbOf i = some k) :
    LiveAt w (total Frame.unmounts F) k := by
  have hlt := List.mem_range.mp (List.mem_of_find?_eq_some hsb)
  have himount : (w.super k).imount = some i := by simpa using List.find?_some hsb
  obtain ⟨k', himount', hl⟩ := h.mount i hm
  have hmem' := mem_pins hl.lt himount' hl.unmounts
  have hclaim := h.claim i
  rw [pins, List.countP_eq_length_filter] at hclaim
  have hone := List.length_pos_of_mem hmem'
  by_cases hu : total Frame.unmounts F k = 0
  · -- two super blocks would be two claims
    have hmem := mem_pins hlt himount hu
    have hlen : ((List.range nrSuper).filter fun k =>
        (w.super k).imount = some i ∧ total Frame.unmounts F k = 0).length = 1 := by omega
    obtain ⟨k'', hk''⟩ := List.length_eq_one_iff.mp hlen
    rw [hk'', List.mem_singleton] at hmem hmem'
    rw [hmem, ← hmem']
    exact hl
  · obtain ⟨f, hf, hk⟩ := List.mem_flatMap.mp (List.count_pos_iff.mp (Nat.pos_of_ne_zero hu))
    obtain ⟨i', hi', himount''⟩ := (h.frames f hf).claims hk
    rw [himount, Option.some.injEq] at himount''
    subst himount''
    have := total_pos hf hi'
    omega

/-- A locked super block is locked by this call, and by no other. -/
theorem Inv.locked (h : Inv w refs (f :: R)) (hl : f.locks = [k]) :
    (w.super k).lock = true ∧ total Frame.locks R k = 0 := by
  have := h.locks k
  rw [total_cons, hl, List.count_singleton_self] at this
  cases hlock : (w.super k).lock with
  | false =>
    rw [hlock] at this
    simp only [Bool.false_eq_true, if_false] at this
    omega
  | true =>
    rw [hlock, if_pos rfl] at this
    exact ⟨rfl, by omega⟩

/-- **The lock of a super block is given back**, by a call that becomes another. -/
theorem Inv.release {c : Frame} (h : Inv w refs (f :: R)) (hl : f.locks = [k])
    (hu : f.unmounts = []) (hh : c.holds = f.holds) (hc : ∀ j, c.claims.count j ≤ f.claims.count j)
    (hu' : c.unmounts = []) (hl' : c.locks = [])
    (hb : (b (w.super k)).lock = false) (himount : (b (w.super k)).imount = (w.super k).imount)
    (hdev : (b (w.super k)).dev = 0 ∨ (b (w.super k)).dev = (w.super k).dev)
    (hok : FrameOk (w.setSuper k b) (total Frame.unmounts R) c) :
    Inv (w.setSuper k b) refs (c :: R) := by
  obtain ⟨hlock, hfree⟩ := h.locked hl
  have hU : total Frame.unmounts (c :: R) = total Frame.unmounts R := by
    ext j
    rw [total_cons, hu']
    exact Nat.zero_add _
  have hU' : total Frame.unmounts (f :: R) = total Frame.unmounts R := by
    ext j
    rw [total_cons, hu]
    exact Nat.zero_add _
  have hzero : total Frame.unmounts R k = 0 := by
    rw [← hU']
    exact h.unmounts_zero (Or.inr (Or.inl hlock))
  refine h.storeSuper (fun j => ?_) (fun j => ?_) (fun j => ?_) (fun hlive => ?_) (fun j _ => ?_) ?_
    (fun j hk hj h0 heq => ?_) (fun j hj => ?_) ?_ fun g hg => ?_
  · rw [total_cons, total_cons, hh]
  · rw [total_cons, total_cons]
    exact Nat.add_le_add_right (hc j) _
  · rw [hU, hU']
    refine List.countP_mono_left fun j' _ hj' => ?_
    rw [decide_eq_true_eq] at hj' ⊢
    by_cases hne : j' = k
    · rw [hne, setSuper_self, himount] at hj'
      rwa [hne]
    · rwa [setSuper_of_ne w b hne] at hj'
  · rw [hlive.lock] at hlock
    cases hlock
  · rw [hU, hU']
  · rw [hU, hzero]
    exact Nat.zero_le 1
  · rcases hdev with hdev | hdev
    · exact absurd hdev h0
    · rw [hdev] at h0 heq
      exact (h.devs k j hk hj h0 heq).symm
  · rw [total_cons, total_cons, hl', hl, List.count_singleton, if_neg (by simpa using hj.symm)]
    rfl
  · rw [total_cons, hl', hfree, hb, if_neg Bool.false_ne_true]
    rfl
  · rcases List.mem_cons.mp hg with rfl | hg
    · right
      rw [hU]
      exact hok
    · exact Or.inl ⟨List.mem_cons_of_mem _ hg, total_eq_zero hzero hg, total_eq_zero hfree hg⟩

/-! ### Mounting -/

/-- The super block is mounted on the directory. -/
def World.mounted (w : World) (k i : ℕ) : World :=
  (w.setSuper k fun b => { b with imount := some i }).setSlot i fun n => { n with mount := true }

theorem mounted_self (w : World) (k i : ℕ) :
    (w.mounted k i).super k = { w.super k with imount := some i } :=
  setSuper_self w k fun b => { b with imount := some i }

theorem mounted_of_ne (w : World) (i : ℕ) (h : j ≠ k) : (w.mounted k i).super j = w.super j :=
  setSuper_of_ne w (fun b => { b with imount := some i }) h

/-- What is counted is one of two things. -/
theorem countP_le_add {α : Type} {p q r : α → Bool} (l : List α)
    (h : ∀ x, p x = true → q x = true ∨ r x = true) :
    l.countP p ≤ l.countP q + l.countP r := by
  induction l with
  | nil => exact le_rfl
  | cons x l ih =>
    rw [List.countP_cons, List.countP_cons, List.countP_cons]
    have := h x
    by_cases hp : p x = true
    · rcases this hp with hq | hr
      · rw [if_pos hp, if_pos hq]
        omega
      · rw [if_pos hp, if_pos hr]
        omega
    · rw [if_neg hp]
      omega

/-- There is one super block more that counts. -/
theorem pins_mounted (w : World) (U : ℕ → ℕ) (k i j : ℕ) :
    pins (w.mounted k i) U j ≤ pins w U j + [i].count j := by
  have hone : (List.range nrSuper).countP (fun k' => k' = k) ≤ 1 := by
    have hcount := List.nodup_iff_count_le_one.mp (List.nodup_range (n := nrSuper)) k
    exact (List.countP_mono_left fun k' _ h => by simpa using h).trans hcount
  by_cases hj : j = i
  · rw [hj, List.count_singleton_self]
    refine le_trans (countP_le_add _ fun k' h => ?_) (Nat.add_le_add_left hone _)
    by_cases hk : k' = k
    · exact Or.inr (decide_eq_true hk)
    · rw [mounted_of_ne w i hk] at h
      exact Or.inl h
  · rw [List.count_singleton, if_neg (by simpa using Ne.symm hj), Nat.add_zero]
    refine List.countP_mono_left fun k' _ h => ?_
    rw [decide_eq_true_eq] at h ⊢
    by_cases hk : k' = k
    · rw [hk, mounted_self, Option.some.injEq] at h
      exact absurd h.1.symm hj
    · rwa [mounted_of_ne w i hk] at h

/-- **A reference becomes a claim** of the super block. -/
theorem Inv.mounted (h : Inv w refs (.mountSuper d i :: R)) (hk : k < nrSuper)
    (hdev : (w.super k).dev ≠ 0) (hlock : (w.super k).lock = false)
    (himount : (w.super k).imount = none) : Inv (w.mounted k i) refs R := by
  have hU : total Frame.unmounts R = total Frame.unmounts (.mountSuper d i :: R) := by
    ext j
    rw [total_cons]
    exact (Nat.zero_add _).symm
  have hU0 : total Frame.unmounts R k = 0 := by
    rw [hU]
    exact h.unmounts_zero (Or.inr (Or.inr himount))
  have hslot : ∀ j, (w.mounted k i).slot j =
      { w.slot j with mount := ((w.mounted k i).slot j).mount } := by
    intro j
    by_cases hj : j = i
    · rw [hj, World.mounted, setSlot_self]
      rfl
    · rw [World.mounted, setSlot_of_ne _ _ hj]
      rfl
  have hsuper : ∀ j, (w.mounted k i).super j =
      { w.super j with imount := ((w.mounted k i).super j).imount } := by
    intro j
    by_cases hj : j = k
    · rw [hj, mounted_self]
    · rw [mounted_of_ne w i hj]
  have hlive : ∀ j, LiveAt w (total Frame.unmounts R) j →
      LiveAt (w.mounted k i) (total Frame.unmounts R) j := by
    intro j hj
    constructor
    · exact hj.lt
    · rw [hsuper]
      exact hj.dev
    · rw [hsuper]
      exact hj.lock
    · exact hj.unmounts
  have hdevs : ∀ j, ((w.mounted k i).super j).dev = (w.super j).dev := by
    intro j
    rw [hsuper]
  have hpins := pins_mounted w (total Frame.unmounts R) k i
  have hcount : ∀ j, ((w.mounted k i).slot j).count = (w.slot j).count := by
    intro j
    rw [hslot]
  constructor
  · intro j
    have h1 := h.count j
    have h2 := hpins j
    rw [← hU, total_cons] at h1
    change _ + ([i].count j + _) + _ ≤ _ at h1
    rw [hcount]
    omega
  · intro j
    have h1 := h.claim j
    have h2 := hpins j
    rw [← hU, total_cons] at h1
    change [i].count j + _ + _ ≤ 1 at h1
    omega
  · intro j
    rw [hslot]
    exact h.clean j
  · intro j
    rw [hslot]
    exact h.idle j
  · intro j
    rw [hslot]
    exact h.blank j
  · intro j
    rw [hslot]
    exact h.table j
  · intro j hj
    rw [Real, hslot]
    exact h.real j hj
  · intro j h0 h1
    rw [hslot] at h0 h1 ⊢
    have := h.live j h0 h1
    rw [← hU] at this
    exact this.mono fun k' hk' _ => ⟨hlive k' hk', hdevs k'⟩
  · intro j j' hj hj' h0 heq
    rw [hdevs] at h0 heq
    rw [hdevs] at heq
    exact h.devs j j' hj hj' h0 heq
  · intro j
    have := h.locks j
    rw [total_cons] at this
    rw [hsuper]
    exact (Nat.zero_add _).symm.trans this
  · rw [hU]
    exact h.once
  · intro j hj
    by_cases hji : j = i
    · rw [hji]
      exact ⟨k, by rw [mounted_self], hlive k ⟨hk, hdev, hlock, hU0⟩⟩
    · rw [World.mounted, setSlot_of_ne _ _ hji] at hj
      obtain ⟨k', hk', hl⟩ := h.mount j hj
      have hne : k' ≠ k := by
        intro heq
        rw [heq, himount] at hk'
        cases hk'
      rw [← hU] at hl
      exact ⟨k', by rw [mounted_of_ne w i hne, hk'], hlive k' hl⟩
  · intro f hf
    have hok := h.frames f (List.mem_cons_of_mem _ hf)
    rw [← hU] at hok
    refine hok.mono (fun j _ => ?_) (fun j _ hb => ?_) (fun k' hk' _ => ⟨hlive k' hk', hdevs k'⟩)
      (fun k' hk' => ?_) fun k' _ => hdevs k'
    · rw [hslot]
      exact ⟨rfl, rfl⟩
    · constructor
      · rw [hslot]
        exact hb.dev
      · rw [hslot]
        exact hb.pipe
      · rw [hslot]
        exact hb.count
      · exact hb.lt
    · have hne : k' ≠ k := fun heq => total_eq_zero hU0 hf (heq ▸ hk')
      exact mounted_of_ne w i hne

/-! ### Unmounting -/

/-- `sys_umount` goes on to unmount this super block. -/
def World.unmounts (w : World) (d k : ℕ) : Prop :=
  d ≠ w.rootDev ∧ w.getSuper d = some k ∧ (w.super k).lock = false ∧ (w.super k).imount ≠ none ∧
    w.busy d = false

/-- Two things that are counted apart. -/
theorem countP_add_le {α : Type} {p q r : α → Bool} (l : List α) (hq : ∀ x, q x = true → p x = true)
    (hr : ∀ x, r x = true → p x = true ∧ q x = false) : l.countP q + l.countP r ≤ l.countP p := by
  induction l with
  | nil => exact le_rfl
  | cons x l ih =>
    rw [List.countP_cons, List.countP_cons, List.countP_cons]
    by_cases hrx : r x = true
    · obtain ⟨hpx, hqx⟩ := hr x hrx
      rw [if_pos hrx, if_pos hpx, hqx, if_neg Bool.false_ne_true]
      omega
    · rw [if_neg hrx]
      by_cases hqx : q x = true
      · rw [if_pos hqx, if_pos (hq x hqx)]
        omega
      · rw [if_neg hqx]
        omega

/-- There is one super block less that counts. -/
theorem pins_unmount (hk : k < nrSuper) (himount : (w.super k).imount = some i) (hzero : U k = 0)
    (hone : U' k ≠ 0) (hU : ∀ j, j ≠ k → U' j = U j) (j : ℕ) :
    pins w U' j + [i].count j ≤ pins w U j := by
  have hmono : ∀ j k', decide ((w.super k').imount = some j ∧ U' k' = 0) = true →
      decide ((w.super k').imount = some j ∧ U k' = 0) = true := by
    intro j k' h
    rw [decide_eq_true_eq] at h ⊢
    have hne : k' ≠ k := fun heq => hone (heq ▸ h.2)
    rw [← hU k' hne]
    exact h
  by_cases hj : j = i
  · rw [hj, List.count_singleton_self]
    have hmem : 0 < (List.range nrSuper).countP fun k' => decide (k' = k) :=
      List.countP_pos_iff.mpr ⟨k, List.mem_range.mpr hk, decide_eq_true rfl⟩
    refine le_trans (Nat.add_le_add_left hmem _) (countP_add_le _ (hmono i) fun k' h => ?_)
    rw [decide_eq_true_eq] at h
    rw [h, decide_eq_true_eq, decide_eq_false_iff_not]
    exact ⟨⟨himount, hzero⟩, fun h' => hone h'.2⟩
  · rw [List.count_singleton, if_neg (by simpa using Ne.symm hj), Nat.add_zero]
    exact List.countP_mono_left fun k' _ h => hmono j k' h

/-- **The claim of a super block becomes a reference**, of the call that unmounts it. -/
theorem Inv.unmount (h : Inv w refs (.umount d :: R)) (hun : w.unmounts d k)
    (himount : (w.super k).imount = some i) (hzero : total Frame.unmounts R k = 0)
    (henter : ∀ f ∈ R, ¬f.enters w d) :
    Inv (w.setSlot i fun n => { n with mount := false }) refs (.iput i (some (k, d)) :: R) := by
  obtain ⟨-, hget, hlock, -, hbusy⟩ := hun
  obtain ⟨hlt, hdev, hd⟩ := getSuper_spec hget
  have hF : total Frame.unmounts (.umount d :: R) = total Frame.unmounts R := by
    ext j
    rw [total_cons]
    exact Nat.zero_add _
  have hcons : ∀ j, total Frame.unmounts (.iput i (some (k, d)) :: R) j =
      [k].count j + total Frame.unmounts R j := fun j => total_cons _
  have hother : ∀ j, j ≠ k → total Frame.unmounts (.iput i (some (k, d)) :: R) j =
      total Frame.unmounts R j := by
    intro j hj
    rw [hcons, List.count_singleton, if_neg (by simpa using hj.symm), Nat.zero_add]
  have hself : total Frame.unmounts (.iput i (some (k, d)) :: R) k = 1 := by
    rw [hcons, List.count_singleton_self, hzero]
  have hpins := pins_unmount (w := w) hlt himount hzero (hself.trans_ne Nat.one_ne_zero) hother
  have hslot : ∀ j, (w.setSlot i fun n => { n with mount := false }).slot j = { w.slot j with
      mount := ((w.setSlot i fun n => { n with mount := false }).slot j).mount } := by
    intro j
    by_cases hj : j = i
    · rw [hj, setSlot_self]
    · rw [setSlot_of_ne w _ hj]
  have hlive : ∀ j, j ≠ k → LiveAt w (total Frame.unmounts R) j →
      LiveAt (w.setSlot i fun n => { n with mount := false })
        (total Frame.unmounts (.iput i (some (k, d)) :: R)) j := fun j hj hl =>
    ⟨hl.lt, hl.dev, hl.lock, (hother j hj).trans hl.unmounts⟩
  constructor
  · intro j
    have h1 := h.count j
    have h2 := hpins j
    rw [hF, total_cons] at h1
    change _ + (0 + _) + _ ≤ _ at h1
    rw [hslot, total_cons]
    change _ + ([i].count j + _) + pins w _ _ ≤ _
    dsimp only
    omega
  · intro j
    have h1 := h.claim j
    have h2 := hpins j
    rw [hF, total_cons] at h1
    change 0 + _ + _ ≤ _ at h1
    rw [total_cons]
    change [i].count j + _ + pins w _ _ ≤ _
    omega
  · intro j
    rw [hslot]
    exact h.clean j
  · intro j
    rw [hslot]
    exact h.idle j
  · intro j
    rw [hslot]
    exact h.blank j
  · intro j
    rw [hslot]
    exact h.table j
  · intro j hj
    rw [Real, hslot]
    exact h.real j hj
  · intro j h0 h1
    rw [hslot] at h0 h1 ⊢
    obtain ⟨k', hk', hdev'⟩ := h.live j h0 h1
    rw [hF] at hk'
    refine ⟨k', hlive k' (fun heq => ?_) hk', hdev'⟩
    -- no inode of the device is in use
    have hjlt : j < nrInode := by
      by_contra hge
      have := h.table j (Nat.le_of_not_lt hge)
      dsimp only at h0
      omega
    rw [World.busy, List.any_eq_false] at hbusy
    have := hbusy j (List.mem_range.mpr hjlt)
    rw [decide_eq_true_eq] at this
    rw [heq, hdev] at hdev'
    exact this ⟨hdev'.symm, Nat.ne_of_gt h0⟩
  · exact h.devs
  · intro j
    have := h.locks j
    rw [total_cons] at this ⊢
    exact this
  · intro j
    by_cases hj : j = k
    · rw [hj, hself]
    · rw [hother j hj]
      have := h.once j
      rwa [hF] at this
  · intro j hj
    have hji : j ≠ i := by
      intro heq
      rw [heq, setSlot_self] at hj
      cases hj
    rw [setSlot_of_ne w _ hji] at hj
    obtain ⟨k', hk', hl⟩ := h.mount j hj
    rw [hF] at hl
    refine ⟨k', hk', hlive k' (fun heq => ?_) hl⟩
    rw [heq, himount] at hk'
    exact hji (Option.some.inj hk').symm
  · intro f hf
    rcases List.mem_cons.mp hf with rfl | hf
    · rintro k' d' ⟨⟩
      exact ⟨hlt, himount, hdev, hd, hlock⟩
    · have hok := h.frames f (List.mem_cons_of_mem _ hf)
      rw [hF] at hok
      refine hok.mono (fun j _ => ?_) (fun j _ hb => ?_)
        (fun k' hk' hent => ⟨hlive k' (fun heq => ?_) hk', rfl⟩) (fun _ _ => rfl) fun _ _ => rfl
      · rw [hslot]
        exact ⟨rfl, rfl⟩
      · constructor
        · rw [hslot]
          exact hb.dev
        · rw [hslot]
          exact hb.pipe
        · rw [hslot]
          exact hb.count
        · exact hb.lt
      · rw [heq, hdev] at hent
        exact henter f hf hent

/-- **`put_super`** gives the super block up, once its inode has been given back. -/
def World.giveUp (w : World) (k : ℕ) : World :=
  w.setSuper k fun _ => ⟨0, true, none⟩

/-- `iput` returns to the call that unmounts. -/
theorem Inv.giveUp (h : Inv w refs (.iput i (some (k, d)) :: R)) :
    Inv (w.giveUp k) refs (.iput i none :: .putBrelse k :: R) := by
  have hm := (h.frames _ List.mem_cons_self) k d rfl
  obtain ⟨hlt, himount, hdev, hd, hlock⟩ := hm
  have hone : total Frame.unmounts R k = 0 := by
    have := h.once k
    rw [total_cons] at this
    change [k].count k + _ ≤ 1 at this
    rw [List.count_singleton_self] at this
    omega
  have hfree : total Frame.locks R k = 0 := by
    have := h.locks k
    rw [hlock, total_cons] at this
    exact Nat.eq_zero_of_add_eq_zero_left this
  have hU : ∀ j, j ≠ k → total Frame.unmounts R j =
      total Frame.unmounts (.iput i (some (k, d)) :: R) j := by
    intro j hj
    rw [total_cons]
    change _ = [k].count j + _
    rw [List.count_singleton, if_neg (by simpa using hj.symm), Nat.zero_add]
  refine h.storeSuper (fun j => ?_) (fun j => ?_) (fun j => ?_) (fun hl => ?_) (fun j hj => ?_) ?_
    (fun j _ _ h0 => absurd rfl h0) (fun j hj => ?_) ?_ fun f hf => ?_
  · exact le_rfl
  · rw [total_cons, total_cons, total_cons]
    exact Nat.add_le_add (Nat.zero_le _) (Nat.zero_add _).le
  · refine List.countP_mono_left fun j' _ hj' => ?_
    rw [decide_eq_true_eq] at hj' ⊢
    by_cases hne : j' = k
    · rw [hne, setSuper_self] at hj'
      cases hj'.1
    · rw [setSuper_of_ne w _ hne] at hj'
      refine ⟨hj'.1, ?_⟩
      rw [← hU j' hne]
      exact hj'.2
  · have := hl.unmounts
    rw [total_cons] at this
    change [k].count k + _ = 0 at this
    rw [List.count_singleton_self] at this
    omega
  · rw [← hU j hj, unmounts_iput, total_cons]
    exact Nat.zero_add _
  · rw [unmounts_iput, total_cons, hone]
    exact Nat.zero_le 1
  · rw [locks_iput, total_cons, total_cons]
    change [k].count j + _ = _
    rw [List.count_singleton, if_neg (by simpa using hj.symm)]
    rfl
  · rw [locks_iput, total_cons, hfree]
    exact List.count_singleton_self
  · rcases List.mem_cons.mp hf with rfl | hf
    · exact Or.inr fun k d hu => absurd hu (by simp)
    · rcases List.mem_cons.mp hf with rfl | hf
      · right
        change ((w.setSuper k _).super k).dev = 0
        rw [setSuper_self]
      · exact Or.inl ⟨List.mem_cons_of_mem _ hf, total_eq_zero hone hf, total_eq_zero hfree hf⟩

end Linux011.Inodes.Mounting
