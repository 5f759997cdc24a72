import Linux011.Block.Requests
import Linux011.Lib.Run

/-!
# The elevator

A device whose requests are added with `add_request` and taken off by `end_request`, in
any order. What is asked of the requests is what the lock on a buffer gives: no two that
are in flight at one time are for the same device and sector. Then `IN_ORDER` decides
between any two of them, and the insertion keeps the queue at two ascending sweeps
(`Linux011.descents_place_le`).
-/

namespace Linux011.Block

/-! ### The system -/

/-- A request, but for its link. -/
def Request.content (r : Request) : Request := { r with next := none }

/-- The request is for another place than `r'`. -/
def Request.Apart (r r' : Request) : Prop := (r.dev, r.sector) ≠ (r'.dev, r'.sector)

/-- **The slots and the queues**, with the requests that have been added and have not ended. -/
structure Elevator where
  sys : Sys
  flight : List Request

namespace Elevator

/-- **A step** of the elevator for the devices of major number `maj`: a request is filled into
a free slot and added, or the first one ends. -/
inductive Step (maj : ℕ) (e : Elevator) : Elevator → Prop
  | add {i : ℕ} {r : Request} {s' : Sys} (hlt : i < nrRequest) (hfree : (e.sys.request i).dev < 0)
      (hdev : 0 ≤ r.dev) (hmaj : major r.dev = maj) (hapart : ∀ r' ∈ e.flight, r.Apart r')
      (hs : addRequest maj i (e.sys.setRequest i fun _ => r) = some s') :
      Step maj e ⟨s', r.content :: e.flight⟩
  | ended {up : Bool} {i : ℕ} {s' : Sys} (hcur : e.sys.currentRequest maj = some i)
      (hs : endRequest maj up e.sys = some s') :
      Step maj e ⟨s', e.flight.erase (e.sys.request i).content⟩

/-- Nothing has been added. -/
def Start (e : Elevator) : Prop := ∃ fn head, e = ⟨blkDevInit fn head, []⟩

/-- **What the elevator keeps**: on the queue is what is in flight, in at most two sweeps. -/
def Ok (maj : ℕ) (e : Elevator) : Prop :=
  ∃ q, Queued e.sys q ∧ ((q maj).map fun i => (e.sys.request i).content).Perm e.flight ∧
    descents e.sys.slotsInOrder (q maj) ≤ 1

end Elevator

/-- `IN_ORDER` decides between requests for different places. -/
theorem inOrder_of_apart {r r' : Request} (h : r.Apart r') (hn : inOrder r r' = false) :
    inOrder r' r = true := by
  have hne : r.dev = r'.dev → r.sector ≠ r'.sector := by
    intro hd hs
    exact h (by rw [hd, hs])
  simp only [inOrder, Bool.or_eq_false_iff, Bool.and_eq_false_iff, decide_eq_false_iff_not,
    beq_eq_false_iff_ne] at hn
  simp only [inOrder, Bool.or_eq_true, Bool.and_eq_true, decide_eq_true_eq, beq_iff_eq]
  omega

variable {maj : ℕ} {e e' : Elevator} {s' : Sys} {q : ℕ → List ℕ} {i : ℕ} {r : Request}

namespace Elevator

theorem Start.ok (h : e.Start) : e.Ok maj := by
  obtain ⟨fn, head, rfl⟩ := h
  exact ⟨fun _ => [], .init fn head, List.Perm.refl _, Nat.zero_le 1⟩

/-- A request is added: it is in flight, and there are still at most two sweeps. -/
theorem Ok.add (h : Queued e.sys q)
    (hp : ((q maj).map fun i => (e.sys.request i).content).Perm e.flight)
    (hd : descents e.sys.slotsInOrder (q maj) ≤ 1) (hfree : (e.sys.request i).dev < 0)
    (hapart : ∀ r' ∈ e.flight, r.Apart r')
    (hadd : Added (e.sys.setRequest i fun _ => r) s' maj i (q maj))
    (hq : Queued s' (Function.update q maj
      (place (e.sys.setRequest i fun _ => r).slotsInOrder i (q maj)))) :
    Ok maj ⟨s', r.content :: e.flight⟩ := by
  obtain ⟨t, ht⟩ : ∃ t : Sys, t = e.sys.setRequest i fun _ => r := ⟨_, rfl⟩
  rw [← ht] at hadd hq
  have hreq : ∀ j, t.request j = if j = i then r else e.sys.request j := by
    intro j
    rw [ht]
    exact Sys.request_setRequest _
  have hnew : t.request i = r := by rw [hreq, if_pos rfl]
  have hold : ∀ j ∈ q maj, t.request j = e.sys.request j := by
    intro j hj
    rw [hreq, if_neg (ne_of_mem_of_not_mem hj (h.free hfree))]
  have horder : s'.slotsInOrder = t.slotsInOrder := by
    ext j k
    rw [Sys.slotsInOrder, hadd.request j, hadd.request k]
    rfl
  have hcontent : (fun j => (s'.request j).content) = fun j => (t.request j).content := by
    ext1 j
    rw [hadd.request j]
    rfl
  refine ⟨_, hq, ?_, ?_⟩
  · rw [Function.update_self, hcontent]
    refine ((place_perm i (q maj)).map _).trans ?_
    rw [List.map_cons, hnew]
    refine List.Perm.cons _ ?_
    have hmap : (q maj).map (fun j => (t.request j).content) =
        (q maj).map fun j => (e.sys.request j).content :=
      List.map_congr_left fun j hj => by rw [hold j hj]
    rw [hmap]
    exact hp
  · change descents s'.slotsInOrder _ ≤ 1
    rw [Function.update_self, horder]
    refine descents_place_le (fun j hj hn => ?_) ?_
    · rw [Sys.slotsInOrder, hnew, hold j hj] at hn
      rw [Sys.slotsInOrder, hnew, hold j hj]
      have hflight : (e.sys.request j).content ∈ e.flight :=
        hp.subset (List.mem_map_of_mem hj)
      have hap : r.Apart (e.sys.request j) :=
        hapart (e.sys.request j).content hflight
      exact inOrder_of_apart hap hn
    · rw [descents_congr (r := e.sys.slotsInOrder) fun a ha b hb => ?_]
      · exact hd
      · rw [Sys.slotsInOrder, hold a ha, hold b hb]
        rfl

/-- The first request ends: it is no longer in flight. -/
theorem Ok.ended {up : Bool} {rest : List ℕ}
    (hp : ((q maj).map fun i => (e.sys.request i).content).Perm e.flight)
    (hd : descents e.sys.slotsInOrder (q maj) ≤ 1) (hqm : q maj = i :: rest)
    (hnd : (q maj).Nodup) (hend : Ended e.sys s' maj i up)
    (hq : Queued s' (Function.update q maj rest)) :
    Ok maj ⟨s', e.flight.erase (e.sys.request i).content⟩ := by
  have hrest : ∀ j ∈ rest, s'.request j = e.sys.request j := by
    intro j hj
    rw [hqm] at hnd
    rw [hend.request, if_neg (ne_of_mem_of_not_mem hj (List.nodup_cons.mp hnd).1)]
  refine ⟨_, hq, ?_, ?_⟩
  · have hperm := hp.erase (e.sys.request i).content
    rw [hqm, List.map_cons, List.erase_cons_head] at hperm
    rw [Function.update_self]
    have hmap : rest.map (fun j => (s'.request j).content) =
        rest.map fun j => (e.sys.request j).content :=
      List.map_congr_left fun j hj => by rw [hrest j hj]
    exact hmap ▸ hperm
  · change descents s'.slotsInOrder _ ≤ 1
    rw [Function.update_self, descents_congr (r := e.sys.slotsInOrder) fun a ha b hb => ?_]
    · rw [hqm] at hd
      exact (descents_tail_le i rest).trans hd
    · rw [Sys.slotsInOrder, hrest a ha, hrest b hb]
      rfl

theorem Ok.step (h : e.Ok maj) (hs : Step maj e e') : e'.Ok maj := by
  obtain ⟨q, hq, hp, hd⟩ := h
  cases hs with
  | add hlt hfree hdev hmaj hapart hs =>
    obtain ⟨s', hs', hadd, hq'⟩ := hq.addRequest hfree hlt hdev hmaj
    obtain rfl := Option.some.inj (hs'.symm.trans hs)
    exact .add hq hp hd hfree hapart hadd hq'
  | ended hcur hs =>
    obtain ⟨i, rest, hqm, hend, hq'⟩ := hq.endRequest hs
    have hc := hq.chain maj
    rw [hcur, hqm] at hc
    obtain rfl := Option.some.inj hc.1
    exact .ended hp hd hqm (hq.nodup maj) hend hq'

end Elevator

end Linux011.Block
