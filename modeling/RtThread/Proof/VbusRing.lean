import RtThread.Spec.VbusRing
import RtThread.Lib.Cyclic

/-!
# A ring of VBus transports its packets

Blocks are counted on without end: the reader is at block `g`, the packets that wait begin there, and the writer's is
behind them. What is `nr` blocks apart is the same in the ring, but the writer keeps one block free, so all that is used
at once is less than `nr` blocks (`Inv`).

* `loads_eq`, `stores_eq`: both sides find the bytes of a packet behind the end of the ring.
* `Inv.writer_step`, `Inv.reader_step`: each side keeps the invariant at each of its accesses.
* `ring_transports`: **what the reader takes are the packets that were put**, in every interleaving.
-/

namespace RtThread.Vbus

variable {nr : ℕ} {blks : ℕ → UInt8} {a g x size : ℕ} {b : UInt8} {p q : Pkg} {l waiting : List Pkg} {s s' : Sys}

/-! ## Addresses -/

theorem le_LEN2BNR (len : ℕ) : len + RT_VBUS_BLK_HEAD_SZ ≤ LEN2BNR len * blkSz ∧ 0 < LEN2BNR len := by
  unfold LEN2BNR RT_VBUS_BLK_HEAD_SZ blkSz
  omega

theorem range'_mod {k n : ℕ} (h : x % n + k ≤ n) : (List.range' x k).map (· % n) = List.range' (x % n) k := by
  refine List.ext_getElem (by simp) fun i h1 h2 => ?_
  have hi : i < k := by simpa using h2
  simp only [List.getElem_map, List.getElem_range', Nat.one_mul]
  rw [← Nat.mod_add_mod]
  exact Nat.mod_eq_of_lt (by omega)

/-- A byte of block `a`. -/
theorem block_mod {k : ℕ} (hnr : 0 < nr) (hk : k < blkSz) :
    (a * blkSz + k) % (nr * blkSz) = a % nr * blkSz + k := by
  have hlt : a % nr < nr := Nat.mod_lt _ hnr
  rw [← Nat.mod_add_mod, Nat.mul_mod_mul_right]
  refine Nat.mod_eq_of_lt ?_
  unfold blkSz at *
  omega

/-- The data of a packet at block `a`. -/
def dataAt (a size : ℕ) : List ℕ := List.range' (a * blkSz + RT_VBUS_BLK_HEAD_SZ) size

/-- **The reader finds all data**, also behind the end of the ring. -/
theorem loads_eq (hnr : 0 < nr) (hsize : LEN2BNR size ≤ nr) :
    loads nr (a % nr) size = (dataAt a size).map (· % (nr * blkSz)) := by
  have hlt : a % nr < nr := Nat.mod_lt _ hnr
  have hstart := block_mod (a := a) (k := RT_VBUS_BLK_HEAD_SZ) hnr (by decide)
  have hlen := (le_LEN2BNR size).1
  unfold loads dataAt
  simp only [blkSz, RT_VBUS_BLK_HEAD_SZ] at hstart hlen ⊢
  split
  · generalize ht : min ((nr - a % nr) * 64 - 4) size = t
    have hsplit : List.range' (a * 64 + 4) size =
        List.range' (a * 64 + 4) t ++ List.range' (a * 64 + 4 + t) (size - t) := by
      have := List.range'_append_1 (s := a * 64 + 4) (m := t) (n := size - t)
      rw [this]
      congr 1
      omega
    rw [hsplit, List.map_append, range'_mod (by omega), hstart]
    congr 1
    by_cases hfull : t = size
    · rw [hfull, Nat.sub_self]
      rfl
    · have hzero : (a * 64 + 4 + t) % (nr * 64) = 0 := by
        rw [← Nat.mod_add_mod, hstart]
        have : a % nr * 64 + 4 + t = nr * 64 := by omega
        rw [this, Nat.mod_self]
      rw [range'_mod (by omega), hzero]
  · rw [range'_mod (by omega), hstart]

/-- The bytes of a packet at block `a`. -/
def cells (a : ℕ) (p : Pkg) : List (ℕ × UInt8) :=
  (a * blkSz, p.id) :: (a * blkSz + 1, p.prio) :: (a * blkSz + 2, UInt8.ofNat p.data.length) ::
    (dataAt a p.data.length).zip p.data

/-- Where a byte is in the ring. -/
def wrap (nr : ℕ) (c : ℕ × UInt8) : ℕ × UInt8 := (c.1 % (nr * blkSz), c.2)

/-- The writer stores the bytes of the packet. -/
theorem stores_eq (hnr : 0 < nr) (hsize : LEN2BNR p.data.length ≤ nr) :
    stores nr p (a % nr) = (cells a p).map (wrap nr) := by
  have hdata : (loads nr (a % nr) p.data.length).zip p.data =
      ((dataAt a p.data.length).zip p.data).map (wrap nr) := by
    rw [loads_eq hnr hsize, List.zip_map_left]
    rfl
  have h0 := block_mod (a := a) (k := 0) hnr (by decide)
  have h1 := block_mod (a := a) (k := 1) hnr (by decide)
  have h2 := block_mod (a := a) (k := 2) hnr (by decide)
  rw [Nat.add_zero, Nat.add_zero] at h0
  simp only [cells, List.map_cons, wrap, h0, h1, h2, ← hdata]
  by_cases hge : a % nr + LEN2BNR p.data.length ≥ nr
  · simp only [stores, loads, if_pos hge, memcpy]
    rw [← List.zip_append (by simp), List.take_append_drop]
    simp
  · simp only [stores, loads, if_neg hge, memcpy]

theorem cells_bound {c : ℕ × UInt8} (hc : c ∈ cells a p) :
    a * blkSz ≤ c.1 ∧ c.1 < (a + LEN2BNR p.data.length) * blkSz := by
  have hlen := le_LEN2BNR p.data.length
  unfold cells at hc
  simp only [List.mem_cons] at hc
  unfold blkSz RT_VBUS_BLK_HEAD_SZ at *
  rcases hc with rfl | rfl | rfl | hc
  · constructor <;> simp only <;> omega
  · constructor <;> simp only <;> omega
  · constructor <;> simp only <;> omega
  · have := (List.of_mem_zip (a := c.1) (b := c.2) hc).1
    unfold dataAt blkSz RT_VBUS_BLK_HEAD_SZ at this
    rw [List.mem_range'_1] at this
    omega

theorem cells_sorted : (cells a p).Pairwise fun c d => c.1 < d.1 := by
  have hfst : (cells a p).map Prod.fst =
      a * blkSz :: (a * blkSz + 1) :: (a * blkSz + 2) :: dataAt a p.data.length := by
    simp only [cells, List.map_cons]
    rw [List.map_fst_zip (by simp [dataAt])]
  have hsorted : ((cells a p).map Prod.fst).Pairwise (· < ·) := by
    have hdata : ∀ x ∈ dataAt a p.data.length, a * blkSz + 2 < x := by
      intro x hx
      unfold dataAt RT_VBUS_BLK_HEAD_SZ at hx
      rw [List.mem_range'_1] at hx
      omega
    rw [hfst]
    refine .cons ?_ (.cons ?_ (.cons hdata List.pairwise_lt_range'))
    · intro x hx
      rcases List.mem_cons.1 hx with rfl | hx
      · omega
      · rcases List.mem_cons.1 hx with rfl | hx
        · omega
        · have := hdata x hx
          omega
    · intro x hx
      rcases List.mem_cons.1 hx with rfl | hx
      · omega
      · have := hdata x hx
        omega
  exact List.pairwise_map.1 hsorted

theorem mem_cells {u v : List UInt8} (h : p.data = u ++ b :: v) :
    (a * blkSz + RT_VBUS_BLK_HEAD_SZ + u.length, b) ∈ cells a p := by
  have hsplit : dataAt a p.data.length = List.range' (a * blkSz + RT_VBUS_BLK_HEAD_SZ) u.length ++
      (a * blkSz + RT_VBUS_BLK_HEAD_SZ + u.length) ::
        List.range' (a * blkSz + RT_VBUS_BLK_HEAD_SZ + u.length + 1) v.length := by
    rw [← List.range'_succ, List.range'_append_1, h, List.length_append, List.length_cons]
    rfl
  unfold cells
  rw [hsplit, h, List.zip_append (by simp)]
  simp

/-! ## What the ring holds -/

/-- These bytes are in the ring. -/
def Stored (nr : ℕ) (blks : ℕ → UInt8) (l : List (ℕ × UInt8)) : Prop := ∀ c ∈ l, blks (c.1 % (nr * blkSz)) = c.2

/-- A store behind these bytes, less than a ring away, leaves them. -/
theorem Stored.update {l : List (ℕ × UInt8)} (h : Stored nr blks l)
    (hx : ∀ c ∈ l, c.1 < x ∧ x < c.1 + nr * blkSz) : Stored nr (Function.update blks (x % (nr * blkSz)) b) l := by
  intro c hc
  obtain ⟨h1, h2⟩ := hx c hc
  have hne : c.1 % (nr * blkSz) ≠ x % (nr * blkSz) := by
    have := Cyclic.add_mod_ne (n := nr * blkSz) (d := x - c.1) (by omega) (by omega) c.1
    rwa [Nat.add_sub_cancel' h1.le] at this
  rw [Function.update_of_ne hne]
  exact h c hc

/-- These packets are in the ring, from block `a` on. -/
def Held (nr : ℕ) (blks : ℕ → UInt8) : ℕ → List Pkg → Prop
  | _, [] => True
  | a, p :: l => Stored nr blks (cells a p) ∧ Held nr blks (a + LEN2BNR p.data.length) l

theorem blocks_cons : blocks (p :: l) = LEN2BNR p.data.length + blocks l := rfl

theorem blocks_concat : blocks (l ++ [p]) = blocks l + LEN2BNR p.data.length := by
  simp [blocks]

theorem Held.concat (h : Held nr blks a l) (hp : Stored nr blks (cells (a + blocks l) p)) :
    Held nr blks a (l ++ [p]) := by
  induction l generalizing a with
  | nil => exact ⟨hp, trivial⟩
  | cons q l ih =>
    refine ⟨h.1, ih h.2 ?_⟩
    rwa [blocks_cons, ← Nat.add_assoc] at hp

theorem Held.update (h : Held nr blks a l) (h1 : (a + blocks l) * blkSz ≤ x) (h2 : x < (a + nr) * blkSz) :
    Held nr (Function.update blks (x % (nr * blkSz)) b) a l := by
  induction l generalizing a with
  | nil => trivial
  | cons q l ih =>
    rw [blocks_cons] at h1
    refine ⟨h.1.update fun c hc => ?_, ih h.2 ?_ ?_⟩
    · have := cells_bound hc
      unfold blkSz at *
      omega
    · unfold blkSz at *
      omega
    · unfold blkSz at *
      omega

/-! ## The invariant -/

/-- The writer has stored a part of its packet, and there is space for all of it. -/
def WriterOk (nr : ℕ) (blks : ℕ → UInt8) (g : ℕ) (waiting : List Pkg) : WriterPc → Prop
  | .store p todo => blocks waiting + LEN2BNR p.data.length < nr ∧ ∃ done left,
    cells (g + blocks waiting) p = done ++ left ∧ todo = left.map (wrap nr) ∧ Stored nr blks done
  | _ => True

/-- What the reader knows is so of the first packet that waits. -/
def ReaderOk (nr g : ℕ) (waiting : List Pkg) : ReaderPc → Prop
  | .check => True
  | .size => waiting ≠ []
  | .id size => ∃ p l, waiting = p :: l ∧ size = p.data.length
  | .copy id size todo bytes => ∃ p l rest, waiting = p :: l ∧ id = p.id ∧ size = p.data.length ∧
    p.data = bytes ++ rest ∧
    todo = (List.range' (g * blkSz + RT_VBUS_BLK_HEAD_SZ + bytes.length) rest.length).map (· % (nr * blkSz))
  | .release id size bytes => ∃ p l, waiting = p :: l ∧ Taken.Of ⟨id, size, bytes⟩ p
  | .poll => True

/-- **The invariant**: the reader is at block `g`, and these packets wait. -/
structure Inv (nr : ℕ) (s : Sys) (g : ℕ) (waiting : List Pkg) : Prop where
  order : ∃ old, s.put = old ++ waiting ∧ List.Forall₂ Taken.Of s.taken old
  get : s.ring.getIdx = g % nr
  put : s.ring.putIdx = (g + blocks waiting) % nr
  room : blocks waiting < nr
  held : Held nr s.ring.blks g waiting
  writer : WriterOk nr s.ring.blks g waiting s.writer
  reader : ReaderOk nr g waiting s.reader

theorem Inv.init (hnr : 0 < nr) : Inv nr rtVbusInit 0 [] :=
  ⟨⟨[], rfl, .nil⟩, (Nat.zero_mod nr).symm, (Nat.zero_mod nr).symm, hnr, trivial, trivial, trivial⟩

theorem add_mod_cases {k : ℕ} (hk : k ≤ nr) (hnr : 0 < nr) :
    (a + k) % nr = if a % nr + k ≥ nr then a % nr + k - nr else a % nr + k := by
  have hlt : a % nr < nr := Nat.mod_lt _ hnr
  rw [← Nat.mod_add_mod]
  generalize a % nr = r at hlt ⊢
  split
  · rw [Nat.mod_eq_sub_mod (by omega), Nat.mod_eq_of_lt (by omega)]
  · exact Nat.mod_eq_of_lt (by omega)

theorem nextIdx_mod {bnr : ℕ} (hbnr : bnr ≤ nr) (hnr : 0 < nr) : nextIdx nr (a % nr) bnr = (a + bnr) % nr :=
  (add_mod_cases hbnr hnr).symm

/-- **The space** that `_bus_ring_space_nr` finds: all blocks but one that are not used. -/
theorem Inv.space (h : Inv nr s g waiting) : busRingSpaceNr nr s.ring = nr - 1 - blocks waiting := by
  have hroom := h.room
  have hlt : g % nr < nr := Nat.mod_lt _ (by omega)
  have hput := h.put
  rw [add_mod_cases hroom.le (by omega)] at hput
  simp only [busRingSpaceNr, h.get, hput]
  generalize g % nr = r at hlt ⊢
  split <;> split <;> omega

theorem Inv.empty (h : Inv nr s g waiting) : s.ring.getIdx = s.ring.putIdx ↔ waiting = [] := by
  rw [h.get, h.put]
  constructor
  · intro heq
    cases waiting with
    | nil => rfl
    | cons p l =>
      have hpos : 0 < blocks (p :: l) := by
        have := (le_LEN2BNR p.data.length).2
        rw [blocks_cons]
        omega
      exact absurd heq (Cyclic.add_mod_ne hpos h.room g)
  · rintro rfl
    rfl

/-! ## The writer -/

theorem ReaderOk.concat {r : ReaderPc} (h : ReaderOk nr g waiting r) : ReaderOk nr g (waiting ++ [p]) r := by
  cases r with
  | check => trivial
  | size => exact List.append_ne_nil_of_left_ne_nil h _
  | id size =>
    obtain ⟨q, l, rfl, h⟩ := h
    exact ⟨q, l ++ [p], rfl, h⟩
  | copy id size todo bytes =>
    obtain ⟨q, l, rest, rfl, h⟩ := h
    exact ⟨q, l ++ [p], rest, rfl, h⟩
  | release id size bytes =>
    obtain ⟨q, l, rfl, h⟩ := h
    exact ⟨q, l ++ [p], rfl, h⟩
  | poll => trivial

/-- **The writer's steps** keep the invariant. -/
theorem Inv.writer_step {act : Act} (h : Inv nr s g waiting) (hst : writerStep nr s act = some s') :
    ∃ waiting', Inv nr s' g waiting' := by
  have hnr : 0 < nr := Nat.zero_lt_of_lt h.room
  have hw := h.writer
  unfold writerStep at hst
  split at hst
  · -- a packet to send, or one of a channel that is not connected
    rename_i p connected hpc
    obtain rfl := Option.some.inj hst
    refine ⟨waiting, h.order, h.get, h.put, h.room, h.held, ?_, h.reader⟩
    cases connected <;> trivial
  · rename_i p hpc
    split at hst
    · obtain rfl := Option.some.inj hst
      exact ⟨waiting, h.order, h.get, h.put, h.room, h.held, trivial, h.reader⟩
    · rename_i hsp
      obtain rfl := Option.some.inj hst
      rw [h.space] at hsp
      refine ⟨waiting, h.order, h.get, h.put, h.room, h.held, ?_, h.reader⟩
      refine ⟨by omega, [], cells (g + blocks waiting) p, rfl, ?_, by simp [Stored]⟩
      rw [h.put, stores_eq hnr (by omega)]
  · obtain rfl := Option.some.inj hst
    exact ⟨waiting, h.order, h.get, h.put, h.room, h.held, trivial, h.reader⟩
  · rename_i p a b todo hpc
    obtain rfl := Option.some.inj hst
    rw [hpc] at hw
    obtain ⟨hroom, done, left, hcells, htodo, hdone⟩ := hw
    cases left with
    | nil => cases htodo
    | cons c left =>
      obtain ⟨hc, rfl⟩ := List.cons.inj htodo
      obtain ⟨rfl, rfl⟩ := Prod.mk.inj hc
      have hmem : c ∈ cells (g + blocks waiting) p := by
        rw [hcells]
        simp
      have hbound := cells_bound hmem
      have hhi : c.1 < (g + nr) * blkSz := lt_of_lt_of_le hbound.2 (Nat.mul_le_mul_right _ (by omega))
      refine ⟨waiting, h.order, h.get, h.put, h.room, h.held.update hbound.1 hhi, ?_, h.reader⟩
      refine ⟨hroom, done ++ [c], left, by rw [hcells]; simp, rfl, ?_⟩
      have hsorted : (done ++ c :: left).Pairwise fun c d => c.1 < d.1 := hcells ▸ cells_sorted
      have hbehind := (List.pairwise_append.1 hsorted).2.2
      intro d hd
      rcases List.mem_append.1 hd with hd | hd
      · refine Stored.update hdone (fun d hd => ⟨hbehind d hd c List.mem_cons_self, ?_⟩) d hd
        have hd := cells_bound (hcells ▸ List.mem_append_left _ hd : d ∈ cells (g + blocks waiting) p)
        unfold blkSz at *
        omega
      · obtain rfl := List.mem_singleton.1 hd
        exact Function.update_self ..
  · rename_i p hpc
    obtain rfl := Option.some.inj hst
    rw [hpc] at hw
    obtain ⟨hroom, done, left, hcells, htodo, hdone⟩ := hw
    have hleft : left = [] := List.map_eq_nil_iff.1 htodo.symm
    rw [hleft, List.append_nil] at hcells
    rw [← hcells] at hdone
    obtain ⟨old, hput, htaken⟩ := h.order
    refine ⟨waiting ++ [p], ⟨old, by rw [hput, List.append_assoc], htaken⟩, h.get, ?_, ?_, h.held.concat hdone,
      trivial, h.reader.concat⟩
    · change nextIdx nr s.ring.putIdx _ = _
      rw [h.put, nextIdx_mod (by omega) hnr, blocks_concat, Nat.add_assoc]
    · rw [blocks_concat]
      exact hroom
  · cases hst

/-! ## The reader -/

theorem WriterOk.release {w : WriterPc} (h : WriterOk nr blks g (p :: l) w) :
    WriterOk nr blks (g + LEN2BNR p.data.length) l w := by
  cases w with
  | store q todo =>
    obtain ⟨hroom, done, left, hcells, h⟩ := h
    rw [blocks_cons] at hroom hcells
    exact ⟨by omega, done, left, by rw [Nat.add_assoc]; exact hcells, h⟩
  | _ => trivial

/-- What is read at block `g`. -/
theorem Inv.read (h : Inv nr s g (p :: l)) {c : ℕ × UInt8} (hc : c ∈ cells g p) :
    s.ring.blks (c.1 % (nr * blkSz)) = c.2 := h.held.1 c hc

theorem dispatch_ok (hnr : 0 < nr) (hsize : LEN2BNR p.data.length ≤ nr) (connected allocated : Bool) :
    ReaderOk nr g (p :: l) (dispatch nr (g % nr) p.id p.data.length connected allocated) := by
  have hdrop : ReaderOk nr g (p :: l) (.release p.id p.data.length none) := ⟨p, l, rfl, rfl, rfl, by simp⟩
  unfold dispatch
  split
  · exact hdrop
  · split
    · split
      · exact hdrop
      · rename_i hle
        refine ⟨p, l, p.data, rfl, rfl, rfl, rfl, ?_⟩
        have hstart := block_mod (a := g) (k := RT_VBUS_BLK_HEAD_SZ) hnr (by decide)
        have hlt : g % nr < nr := Nat.mod_lt _ hnr
        rw [List.length_nil, Nat.add_zero, range'_mod, hstart]
        rw [hstart]
        unfold blkSz RT_VBUS_BLK_HEAD_SZ
        omega
    · split
      · exact hdrop
      · exact ⟨p, l, p.data, rfl, rfl, rfl, rfl, loads_eq hnr hsize⟩

/-- **The reader's steps** keep the invariant. -/
theorem Inv.reader_step {act : Act} (h : Inv nr s g waiting) (hst : readerStep nr s act = some s') :
    ∃ g' waiting', Inv nr s' g' waiting' := by
  have hnr : 0 < nr := Nat.zero_lt_of_lt h.room
  have hr := h.reader
  unfold readerStep at hst
  split at hst
  · obtain rfl := Option.some.inj hst
    refine ⟨g, waiting, h.order, h.get, h.put, h.room, h.held, h.writer, ?_⟩
    change ReaderOk _ _ _ (if _ then _ else _)
    split
    · rename_i hne
      exact fun hnil => hne (h.empty.2 hnil)
    · trivial
  · rename_i hpc
    obtain rfl := Option.some.inj hst
    rw [hpc] at hr
    cases waiting with
    | nil => exact absurd rfl hr
    | cons p l =>
      refine ⟨g, p :: l, h.order, h.get, h.put, h.room, h.held, h.writer, p, l, rfl, ?_⟩
      have hcell := h.read (c := (g * blkSz + 2, UInt8.ofNat p.data.length)) (by simp [cells])
      rw [block_mod hnr (by decide), ← h.get] at hcell
      rw [hcell, UInt8.toNat_ofNat']
      exact Nat.mod_eq_of_lt p.short
  · rename_i connected allocated size hpc
    obtain rfl := Option.some.inj hst
    rw [hpc] at hr
    obtain ⟨p, l, rfl, rfl⟩ := hr
    refine ⟨g, p :: l, h.order, h.get, h.put, h.room, h.held, h.writer, ?_⟩
    have hcell := h.read (c := (g * blkSz, p.id)) (by simp [cells])
    rw [← Nat.add_zero (g * blkSz), block_mod hnr (by decide), ← h.get, Nat.add_zero] at hcell
    change ReaderOk _ _ _ (dispatch _ _ (s.ring.blks _) _ _ _)
    rw [hcell, h.get]
    have hroom := h.room
    rw [blocks_cons] at hroom
    exact dispatch_ok hnr (by omega) connected allocated
  · rename_i id size a todo bytes hpc
    obtain rfl := Option.some.inj hst
    rw [hpc] at hr
    obtain ⟨p, l, rest, rfl, hid, hsize, hdata, htodo⟩ := hr
    cases rest with
    | nil => cases htodo
    | cons b rest =>
      rw [List.length_cons, List.range'_succ, List.map_cons] at htodo
      obtain ⟨rfl, rfl⟩ := List.cons.inj htodo
      have hb : s.ring.blks _ = b := h.read (mem_cells hdata)
      refine ⟨g, p :: l, h.order, h.get, h.put, h.room, h.held, h.writer, p, l, rest, rfl, hid, hsize, ?_, ?_⟩
      · rw [hb, hdata, List.append_assoc]
        rfl
      · rw [hb, List.length_append, List.length_singleton, Nat.add_assoc]
  · rename_i id size bytes hpc
    obtain rfl := Option.some.inj hst
    rw [hpc] at hr
    obtain ⟨p, l, rest, rfl, hid, hsize, hdata, htodo⟩ := hr
    refine ⟨g, p :: l, h.order, h.get, h.put, h.room, h.held, h.writer, p, l, rfl, hid, hsize, ?_⟩
    have hrest : rest = [] := by
      have := congrArg List.length htodo
      simpa using this.symm
    rintro b hb
    obtain rfl := Option.some.inj hb
    rw [hdata, hrest, List.append_nil]
  · rename_i id size bytes hpc
    obtain rfl := Option.some.inj hst
    rw [hpc] at hr
    obtain ⟨p, l, rfl, hof⟩ := hr
    obtain ⟨old, hput, htaken⟩ := h.order
    have hsize : size = p.data.length := hof.size
    have hroom := h.room
    rw [blocks_cons] at hroom
    refine ⟨g + LEN2BNR p.data.length, l, ⟨old ++ [p], by rw [hput]; simp, ?_⟩, ?_, ?_, by omega, h.held.2,
      h.writer.release, ?_⟩
    · exact List.rel_append htaken (.cons hof .nil)
    · change nextIdx nr s.ring.getIdx _ = _
      rw [h.get, hsize, nextIdx_mod (by omega) hnr]
    · change s.ring.putIdx = _
      rw [h.put, blocks_cons, Nat.add_assoc]
    · change ReaderOk _ _ _ (if _ then _ else _)
      split <;> trivial
  · obtain rfl := Option.some.inj hst
    exact ⟨g, waiting, h.order, h.get, h.put, h.room, h.held, h.writer, trivial⟩
  · cases hst

/-! ## Every run -/

theorem inv_of_reach (hnr : 0 < nr) (h : Run.Reach Init (fun s a s' => step nr s a = some s') Run.Any s) :
    ∃ g waiting, Inv nr s g waiting := by
  refine Run.Reach.inv (I := fun s => ∃ g waiting, Inv nr s g waiting) (fun s hs => ?_) (fun s a s' hI _ hst => ?_) h
  · rw [hs]
    exact ⟨0, [], Inv.init hnr⟩
  · obtain ⟨g, waiting, hI⟩ := hI
    rcases Option.or_eq_some_iff.1 hst with hw | ⟨-, hr⟩
    · exact ⟨g, hI.writer_step hw⟩
    · exact hI.reader_step hr

/-- **The ring transports its packets**, in every interleaving of the accesses of both sides: the reader takes them in
the order in which they were put, and what it does not drop it has whole. -/
theorem ring_transports (hnr : 0 < nr)
    (h : Run.Reach Init (fun s a s' => step nr s a = some s') Run.Any s) :
    ∃ waiting, Transported nr s waiting := by
  obtain ⟨g, waiting, hI⟩ := inv_of_reach hnr h
  have hroom := hI.room
  refine ⟨waiting, hI.order, ?_, ?_, ?_, ?_, hI.empty, hI.space⟩
  · rw [hI.put]
    exact Nat.mod_lt _ hnr
  · rw [hI.get]
    exact Nat.mod_lt _ hnr
  · intro p a b todo hpc
    have hw := hI.writer
    rw [hpc] at hw
    obtain ⟨hspace, done, left, hcells, htodo, -⟩ := hw
    cases left with
    | nil => cases htodo
    | cons c left =>
      obtain ⟨hc, -⟩ := List.cons.inj htodo
      obtain ⟨rfl, rfl⟩ := Prod.mk.inj hc
      have hbound := cells_bound (p := p) (hcells ▸ List.mem_append_right _ List.mem_cons_self)
      refine ⟨Nat.mod_lt _ (Nat.mul_pos hnr (by decide)), fun i hi => ?_⟩
      -- the store is in a block behind those that wait
      have hblock : g + blocks waiting ≤ c.1 / blkSz ∧ c.1 / blkSz < g + nr := by
        unfold blkSz at hbound ⊢
        omega
      rw [Nat.mod_mul_left_div_self, hI.get, Nat.mod_add_mod]
      have hne := Cyclic.add_mod_ne (n := nr) (d := c.1 / blkSz - (g + i)) (by omega) (by omega) (g + i)
      rw [Nat.add_sub_cancel' (by omega)] at hne
      exact hne.symm
  · intro id size a todo bytes hpc
    have hr := hI.reader
    rw [hpc] at hr
    obtain ⟨p, l, rest, -, -, -, -, htodo⟩ := hr
    obtain ⟨y, -, rfl⟩ := List.mem_map.1 (htodo ▸ List.mem_cons_self : a ∈ List.map _ _)
    exact Nat.mod_lt _ (Nat.mul_pos hnr (by decide))

theorem rtVbusInit_ok : Init rtVbusInit := rfl

theorem ring_transports_one : ∃ s waiting, s.taken = [⟨1, 1, some [7]⟩] ∧ Transported 2 s waiting := by
  have hrun : ∃ s, Run.Reach Init (fun s a s' => step 2 s a = some s') Run.Any s ∧
      decide (s.taken = [⟨1, 1, some [7]⟩]) = true :=
    Run.Reach.exec_ok (step 2) Run.Any rtVbusInit_ok
      [.pop ⟨1, 0, [7], by decide⟩ true, .space, .store, .store, .store, .store, .check, .publish, .check, .size,
        .id true true, .load, .copied, .release] (fun s => decide (s.taken = [⟨1, 1, some [7]⟩])) (by decide)
  obtain ⟨s, hs, htaken⟩ := hrun
  obtain ⟨waiting, h⟩ := ring_transports (by decide) hs
  exact ⟨s, waiting, of_decide_eq_true htaken, h⟩

end RtThread.Vbus
