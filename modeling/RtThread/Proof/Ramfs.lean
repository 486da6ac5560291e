import RtThread.Spec.Ramfs
import Mathlib.Data.List.Nodup
import Mathlib.Tactic.Linarith

/-!
# The RAM file system is a map from names to byte strings

* `content_write`: what `dfs_ramfs_write` leaves in the block of a file.
* `call_abs`: a call does what the map says, if the code gets it right.
* `ramfs_refines`: so it does in every run of such calls.
* `ramfs_lost`: a file is not found under its new name, is shortened by a write, and read at `NULL`.
-/

namespace RtThread.Ramfs

variable {s s' : State} {t : Fs} {c : Call} {d : Dirent} {f : Fd} {no count pos : ℕ} {a : Addr} {path : Path}
  {buf : List Byte} {flags : Flags}

/-! ## The abstraction -/

def Dirent.content (d : Dirent) : List Byte := d.block.take d.size

def Dirent.abs (d : Dirent) : File := ⟨d.addr, d.name, d.content⟩

def Fd.abs (f : Fd) : Handle := ⟨f.no, f.data, f.pos⟩

def State.abs (s : State) : Fs := ⟨s.root.map Dirent.abs, s.fds.map Fd.abs⟩

/-- The file is inside its block. -/
def Dirent.Fits (d : Dirent) : Prop := d.size ≤ d.block.length ∧ d.size < 2 ^ 32

/-- The position is inside what the descriptor takes for the file. -/
def Fd.Fits (f : Fd) : Prop := f.pos ≤ f.size ∧ f.size < 2 ^ 32

/-- The entries are distinct, and each descriptor has one. -/
structure WellFormed (s : State) : Prop where
  distinct : (s.root.map Dirent.addr).Nodup
  fits : ∀ d ∈ s.root, d.Fits
  fds : ∀ f ∈ s.fds, f.Fits
  owned : ∀ f ∈ s.fds, f.data ∈ s.root.map Dirent.addr

theorem length_content (h : d.Fits) : d.content.length = d.size := by
  rw [Dirent.content, List.length_take, Nat.min_eq_left h.1]

theorem get_abs (s : State) (a : Addr) : s.abs.get a = (s.dirent a).map Dirent.abs := by
  unfold Fs.get State.dirent State.abs
  rw [List.find?_map]
  rfl

theorem handle_abs (s : State) (no : ℕ) : s.abs.handle no = (s.fd no).map Fd.abs := by
  unfold Fs.handle State.fd State.abs
  rw [List.find?_map]
  rfl

/-- A lookup finds an entry, as the map does, or nothing. -/
theorem lookup_cases (s : State) (h : Fs.Named path) :
    (∃ d ∈ s.root, s.dfsRamfsLookup path = .dirent d ∧ s.abs.lookup path = some d.abs) ∨
      (s.dfsRamfsLookup path = .null ∧ s.abs.lookup path = none) := by
  have habs : s.abs.lookup path = (s.root.find? fun d => d.name = subpath path).map Dirent.abs := by
    unfold Fs.lookup State.abs
    rw [List.find?_map]
    rfl
  unfold State.dfsRamfsLookup
  rw [if_neg h.1, habs]
  cases hd : s.root.find? fun d => d.name = subpath path with
  | some d => exact .inl ⟨d, List.mem_of_find?_eq_some hd, rfl, rfl⟩
  | none => exact .inr ⟨rfl, rfl⟩

theorem setDirent_abs (s : State) (d : Dirent) : (s.setDirent d).abs = s.abs.set d.abs := by
  unfold State.setDirent Fs.set State.abs
  simp only [List.map_map]
  congr 2
  funext e
  by_cases he : e.addr = d.addr
  · simp only [Function.comp_apply, if_pos he]
    rw [if_pos (show e.abs.addr = d.abs.addr from he)]
  · simp only [Function.comp_apply, if_neg he]
    rw [if_neg (show ¬e.abs.addr = d.abs.addr from he)]

theorem setFd_abs (s : State) (f : Fd) (size pos : ℕ) :
    (s.setFd { f with size, pos }).abs = s.abs.move f.abs pos := by
  unfold State.setFd Fs.move State.abs
  simp only [List.map_map]
  congr 2
  funext g
  by_cases hg : g.no = f.no
  · simp only [Function.comp_apply, if_pos hg]
    rw [if_pos (show g.abs.no = f.abs.no from hg)]
    rfl
  · simp only [Function.comp_apply, if_neg hg]
    rw [if_neg (show ¬g.abs.no = f.abs.no from hg)]

/-! ## The invariant -/

theorem setDirent_addr (s : State) (d : Dirent) :
    (s.setDirent d).root.map Dirent.addr = s.root.map Dirent.addr := by
  unfold State.setDirent
  rw [List.map_map]
  apply List.map_congr_left
  intro e _
  by_cases he : e.addr = d.addr
  · rw [Function.comp_apply, if_pos he, he]
  · rw [Function.comp_apply, if_neg he]

theorem WellFormed.setDirent (h : WellFormed s) (hd : d.Fits) : WellFormed (s.setDirent d) := by
  refine ⟨(setDirent_addr s d).symm ▸ h.distinct, ?_, h.fds, ?_⟩
  · intro e he
    obtain ⟨e', he', rfl⟩ := List.mem_map.1 he
    split
    · exact hd
    · exact h.fits e' he'
  · intro f hf
    rw [setDirent_addr]
    exact h.owned f hf

theorem WellFormed.setFd (h : WellFormed s) (hf : f.Fits) (ha : f.data ∈ s.root.map Dirent.addr) :
    WellFormed (s.setFd f) := by
  refine ⟨h.distinct, h.fits, ?_, ?_⟩
  · intro g hg
    obtain ⟨g', hg', rfl⟩ := List.mem_map.1 hg
    split
    · exact hf
    · exact h.fds g' hg'
  · intro g hg
    obtain ⟨g', hg', rfl⟩ := List.mem_map.1 hg
    split
    · exact ha
    · exact h.owned g' hg'

/-- An open descriptor has a file. -/
theorem WellFormed.file (h : WellFormed s) (hf : s.fd no = some f) : ∃ d, s.dirent f.data = some d := by
  obtain ⟨d, hd, ha⟩ := List.mem_map.1 (h.owned f (List.mem_of_find?_eq_some hf))
  have hsome : (s.dirent f.data).isSome = true := by
    unfold State.dirent
    rw [List.find?_isSome]
    exact ⟨d, hd, decide_eq_true ha⟩
  exact Option.isSome_iff_exists.1 hsome

theorem fd_mem (hf : s.fd no = some f) : f ∈ s.fds := List.mem_of_find?_eq_some hf

theorem dirent_mem (hd : s.dirent a = some d) : d ∈ s.root := List.mem_of_find?_eq_some hd

theorem file_eq (hf : s.fd no = some f) (hd : s.dirent f.data = some d) : s.file no = some (f, d) := by
  rw [State.file, hf, Option.bind_some, hd]
  rfl

/-- What a call of the code and of the map have in common. -/
def Agree (x : Option (Out × State)) (y : Option (Out × Fs)) : Prop :=
  ∃ out s', x = some (out, s') ∧ y = some (out, s'.abs) ∧ WellFormed s'

/-- A descriptor of the map is one of the code. -/
theorem isSome_handle (h : (s.abs.handle no).isSome = true) : ∃ f, s.fd no = some f := by
  rw [handle_abs, Option.isSome_map] at h
  exact Option.isSome_iff_exists.1 h

/-! ## Reading and seeking -/

theorem uint32_of_lt {n : ℕ} (h : n < 2 ^ 32) : uint32 n = n := Nat.mod_eq_of_lt h

theorem Fd.Fits.left (h : f.Fits) : uint32 (f.size + 2 ^ 32 - f.pos) = f.size - f.pos := by
  obtain ⟨hpos, hsize⟩ := h
  unfold uint32
  rw [show f.size + 2 ^ 32 - f.pos = f.size - f.pos + 2 ^ 32 by omega, Nat.add_mod_right]
  exact Nat.mod_eq_of_lt (by omega)

/-- The bytes of the content, if the file does not end before. -/
theorem memcpyOut_eq (h : d.Fits) {n : ℕ} (hn : n = min count (d.size - pos)) :
    d.memcpyOut pos n = some ((d.content.drop pos).take count) := by
  have htake : (d.content.drop pos).take count = (d.block.drop pos).take n := by
    rw [Dirent.content, List.drop_take, List.take_take, hn]
  rw [htake]
  unfold Dirent.memcpyOut
  by_cases hpos : 0 < n
  · have hfit := h.1
    rw [if_pos hpos, Buffer.read, if_pos (by omega)]
  · rw [if_neg hpos, Nat.eq_zero_of_not_pos hpos, List.take_zero]

theorem read_abs (hw : WellFormed s) (hlegal : s.abs.Legal (.ramfsRead no count)) (hm : Meets s (.ramfsRead no count)) :
    Agree (s.call (.ramfsRead no count)) (s.abs.call (.ramfsRead no count)) := by
  obtain ⟨f, hf⟩ := isSome_handle hlegal
  obtain ⟨d, hd⟩ := hw.file hf
  have hfile := file_eq hf hd
  have hfd := hw.fds f (fd_mem hf)
  have hfits := hw.fits d (dirent_mem hd)
  obtain ⟨hpos, hsize⟩ := hfd
  have hlen : min count (f.size - f.pos) = min count (d.size - f.pos) := hm (f, d) hfile
  have hlength : (if count < uint32 (f.size + 2 ^ 32 - f.pos) then count else uint32 (f.size + 2 ^ 32 - f.pos)) =
      min count (f.size - f.pos) := by
    rw [Fd.Fits.left ⟨hpos, hsize⟩]
    split <;> omega
  have hbuf : ((d.content.drop f.pos).take count).length = min count (f.size - f.pos) := by
    rw [List.length_take, List.length_drop, length_content hfits, hlen]
  have hnext : uint32 (f.pos + min count (f.size - f.pos)) = f.pos + min count (f.size - f.pos) :=
    uint32_of_lt (by omega)
  refine ⟨.bytes ((d.content.drop f.pos).take count),
    s.setFd { f with size := f.size, pos := f.pos + min count (f.size - f.pos) }, ?_, ?_, ?_⟩
  · simp only [State.call, State.dfsRamfsRead, hfile, hlength, hnext]
    rw [memcpyOut_eq hfits hlen]
    rfl
  · rw [setFd_abs, Fs.call, handle_abs, hf, Option.map_some, Option.bind_some]
    rw [show f.abs.file = f.data from rfl, get_abs, hd, ← hbuf]
    rfl
  · exact hw.setFd ⟨show f.pos + min count (f.size - f.pos) ≤ f.size by omega, hsize⟩ (hw.owned f (fd_mem hf))

theorem lseek_abs {offset : ℕ} (hw : WellFormed s) (hlegal : s.abs.Legal (.ramfsLseek no offset))
    (hm : Meets s (.ramfsLseek no offset)) :
    Agree (s.call (.ramfsLseek no offset)) (s.abs.call (.ramfsLseek no offset)) := by
  obtain ⟨hoff, hany⟩ := hlegal
  have hsome : (s.abs.handle no).isSome = true := by
    cases hh : s.abs.handle no with
    | none =>
      rw [hh] at hany
      cases hany
    | some h => rfl
  obtain ⟨f, hf⟩ := isSome_handle hsome
  obtain ⟨hpos, hsize⟩ := hw.fds f (fd_mem hf)
  have hle : (offset : ℤ) ≤ off f.size := hm f hf
  have hfit : offset ≤ f.size := by
    unfold off at hle
    rw [BitVec.toInt_eq_toNat_cond, BitVec.toNat_ofNat, Nat.mod_eq_of_lt hsize] at hle
    split at hle <;> push_cast at hle <;> omega
  refine ⟨.count offset, s.setFd { f with size := f.size, pos := offset }, ?_, ?_, ?_⟩
  · simp only [State.call, State.dfsRamfsLseek, hf, Option.map_some, if_pos hle]
  · rw [setFd_abs, Fs.call, handle_abs, hf]
    rfl
  · exact hw.setFd ⟨hfit, hsize⟩ (hw.owned f (fd_mem hf))

/-! ## Writing -/

/-- What a write leaves of a block of a file with `size` bytes. -/
theorem take_blit {m : List Byte} {size : ℕ} (hend : pos + buf.length ≤ size) (hsize : size ≤ m.length) :
    (m.take pos ++ buf ++ m.drop (pos + buf.length)).take size =
      m.take pos ++ buf ++ (m.take size).drop (pos + buf.length) := by
  have hlen : (m.take pos ++ buf).length = pos + buf.length := by
    rw [List.length_append, List.length_take]
    omega
  rw [List.take_append, hlen, List.take_of_length_le (by omega), List.drop_take]

/-- The bytes before the position are those of the content. -/
theorem overwrite_eq (hbuf : 0 < buf.length) (h : pos ≤ d.content.length) :
    Fs.overwrite d.content pos buf = d.content.take pos ++ buf ++ d.content.drop (pos + buf.length) := by
  unfold Fs.overwrite Buffer.pad
  rw [if_neg (List.ne_nil_of_length_pos hbuf), Nat.sub_eq_zero_of_le h, List.replicate_zero, List.append_nil]

/-- The entry that a write of some bytes leaves. -/
theorem memcpyIn_eq (hbuf : 0 < buf.length) (hend : pos + buf.length ≤ d.block.length) :
    d.memcpyIn pos buf =
      some { d with data := some (d.block.take pos ++ buf ++ d.block.drop (pos + buf.length)) } := by
  unfold Dirent.memcpyIn
  rw [if_pos hbuf, Buffer.blit, if_pos hend]
  rfl

/-- A write inside the file, or of no bytes. -/
theorem content_write (h : d.Fits) (hend : buf = [] ∨ pos + buf.length ≤ d.size) :
    ∃ d', d.memcpyIn pos buf = some d' ∧ d'.addr = d.addr ∧ d'.Fits ∧
      d'.abs = { d.abs with content := Fs.overwrite d.content pos buf } := by
  obtain ⟨hblock, hsize⟩ := h
  have hcontent := length_content ⟨hblock, hsize⟩
  rcases Nat.eq_zero_or_pos buf.length with hz | hbuf
  · refine ⟨d, ?_, rfl, ⟨hblock, hsize⟩, ?_⟩
    · rw [Dirent.memcpyIn, if_neg (by omega)]
    · rw [Fs.overwrite, if_pos (List.length_eq_zero_iff.1 hz)]
      rfl
  · have hend : pos + buf.length ≤ d.size := hend.resolve_left (List.ne_nil_of_length_pos hbuf)
    refine ⟨_, memcpyIn_eq hbuf (by omega), rfl, ⟨?_, hsize⟩, ?_⟩
    · show d.size ≤ (d.block.take pos ++ buf ++ d.block.drop (pos + buf.length)).length
      simp only [List.length_append, List.length_take, List.length_drop]
      omega
    · rw [overwrite_eq hbuf (by omega)]
      have hfront : d.content.take pos = d.block.take pos := by
        rw [Dirent.content, List.take_take, Nat.min_eq_left (by omega)]
      rw [hfront]
      exact congrArg (File.mk d.addr d.name) (take_blit hend hblock)

/-- A write that makes the file longer: the new block begins with the content. -/
theorem content_grow (h : d.Fits) (fresh : List Byte) (hpos : pos ≤ d.size) (hbuf : 0 < buf.length)
    (hend : d.size ≤ pos + buf.length) (hlt : pos + buf.length < 2 ^ 32) :
    ∃ d', Dirent.memcpyIn { d with data := some (realloc d.block (pos + buf.length) fresh),
                                   size := pos + buf.length } pos buf = some d' ∧ d'.addr = d.addr ∧ d'.Fits ∧
      d'.abs = { d.abs with content := Fs.overwrite d.content pos buf } := by
  obtain ⟨hblock, hsize⟩ := h
  have hcontent := length_content ⟨hblock, hsize⟩
  have hlong : pos + buf.length ≤ (realloc d.block (pos + buf.length) fresh).length := by
    unfold realloc Buffer.pad
    simp only [List.length_append, List.length_take, List.length_replicate]
    omega
  have hold : (realloc d.block (pos + buf.length) fresh).take pos = d.content.take pos := by
    unfold realloc Buffer.pad Dirent.content
    rw [List.append_assoc, List.take_append_of_le_length (by rw [List.length_take]; omega), List.take_take,
      List.take_take, Nat.min_eq_left (by omega), Nat.min_eq_left hpos]
  refine ⟨_, memcpyIn_eq hbuf hlong, rfl, ⟨?_, hlt⟩, ?_⟩
  · simp only [Dirent.block, Option.getD_some] at hlong ⊢
    simp only [List.length_append, List.length_take, List.length_drop]
    omega
  · have hrest : d.content.drop (pos + buf.length) = [] := List.drop_eq_nil_of_le (by omega)
    have hnew := take_blit (Nat.le_refl (pos + buf.length)) hlong
    rw [List.drop_eq_nil_of_le (List.length_take_le _ _)] at hnew
    rw [overwrite_eq hbuf (by omega), hrest, ← hold]
    exact congrArg (File.mk d.addr d.name) hnew

theorem write_abs {mem : Option (List Byte)} (hw : WellFormed s) (hlegal : s.abs.Legal (.ramfsWrite no buf mem))
    (hm : Meets s (.ramfsWrite no buf mem)) :
    Agree (s.call (.ramfsWrite no buf mem)) (s.abs.call (.ramfsWrite no buf mem)) := by
  obtain ⟨f, hf⟩ := isSome_handle hlegal.1
  obtain ⟨d, hd⟩ := hw.file hf
  have hfile := file_eq hf hd
  have hfits := hw.fits d (dirent_mem hd)
  obtain ⟨hpos, hsize⟩ := hw.fds f (fd_mem hf)
  obtain ⟨hlt, hcase⟩ := hm (f, d) hfile
  simp only at hlt hcase
  have hspec : s.abs.call (.ramfsWrite no buf mem) =
      some (if buf ≠ [] ∧ d.size < f.pos + buf.length ∧ mem = none then (.count 0, s.abs)
        else (.count buf.length, (s.abs.set { d.abs with content := Fs.overwrite d.content f.pos buf }).move f.abs
          (f.pos + buf.length))) := by
    rw [Fs.call, handle_abs, hf, Option.map_some, Option.bind_some, show f.abs.file = f.data from rfl, get_abs, hd,
      ← length_content hfits]
    rfl
  rw [hspec]
  have hcount : uint32 (buf.length + f.pos) = f.pos + buf.length := by
    rw [Nat.add_comm]
    exact uint32_of_lt hlt
  have hnext : uint32 (f.pos + buf.length) = f.pos + buf.length := uint32_of_lt hlt
  -- an entry and a descriptor that the write leaves
  have hdone : ∀ d' size, d'.addr = d.addr → d'.Fits → f.pos + buf.length ≤ size → size < 2 ^ 32 →
      WellFormed ((s.setDirent d').setFd { f with size, pos := f.pos + buf.length }) := by
    intro d' size _ hfits' hle hlt'
    refine (hw.setDirent hfits').setFd ⟨hle, hlt'⟩ ?_
    rw [setDirent_addr]
    exact hw.owned f (fd_mem hf)
  by_cases hgrow : f.size < f.pos + buf.length
  · rw [if_pos hgrow] at hcase
    obtain ⟨hle, hend, hmem⟩ := hcase
    have hbuf : 0 < buf.length := by omega
    cases mem with
    | none =>
      refine ⟨.count 0, s, ?_, ?_, hw⟩
      · simp only [State.call, State.dfsRamfsWrite, hfile, State.grow, hcount, if_pos hgrow, Option.map_none]
      · rw [if_pos ⟨List.ne_nil_of_length_pos hbuf, hmem rfl, rfl⟩]
    | some fresh =>
      obtain ⟨d', hd', haddr, hfits', habs⟩ := content_grow hfits fresh hle hbuf hend hlt
      refine ⟨.count buf.length, _, ?_, ?_, hdone d' (f.pos + buf.length) haddr hfits' (Nat.le_refl _) hlt⟩
      · simp only [State.call, State.dfsRamfsWrite, hfile, State.grow, hcount, hnext, if_pos hgrow, Option.map_some, hd']
      · rw [if_neg (fun h => by cases h.2.2), setFd_abs, setDirent_abs, habs]
  · rw [if_neg hgrow] at hcase
    obtain ⟨d', hd', haddr, hfits', habs⟩ := content_write hfits hcase
    refine ⟨.count buf.length, _, ?_, ?_, hdone d' f.size haddr hfits' (Nat.le_of_not_lt hgrow) hsize⟩
    · simp only [State.call, State.dfsRamfsWrite, hfile, State.grow, hcount, hnext, if_neg hgrow, Option.map_some, hd']
    · rw [if_neg (fun h => Nat.not_le_of_lt h.2.1 (hcase.resolve_left h.1)), setFd_abs, setDirent_abs, habs]

/-! ## Opening and closing -/

/-- The entry of a file that is opened. -/
def Dirent.opened (d : Dirent) (flags : Flags) : Dirent :=
  if flags.trunc then { d with size := 0, data := none } else d

theorem opened_addr (d : Dirent) (flags : Flags) : (d.opened flags).addr = d.addr := by
  unfold Dirent.opened
  split <;> rfl

theorem opened_fits (h : d.Fits) (flags : Flags) : (d.opened flags).Fits := by
  unfold Dirent.opened
  split
  · exact ⟨Nat.zero_le _, Nat.two_pow_pos 32⟩
  · exact h

theorem opened_abs (d : Dirent) (flags : Flags) :
    (if flags.trunc then { d.abs with content := [] } else d.abs) = (d.opened flags).abs := by
  unfold Dirent.opened
  split <;> rfl

theorem attach_abs (hw : WellFormed s) (hd : d ∈ s.root) (no : ℕ) (flags : Flags) :
    s.abs.attach no d.abs flags = (.ok, (s.attach no d flags).2.abs) ∧ WellFormed (s.attach no d flags).2 := by
  have hfits := opened_fits (hw.fits d hd) flags
  have hset := hw.setDirent hfits
  constructor
  · simp only [Fs.attach, State.attach, opened_abs]
    rw [← setDirent_abs, show (d.opened flags).abs.content.length = _ from length_content hfits]
    rfl
  · have hpos : (if flags.append then (d.opened flags).size else 0) ≤ (d.opened flags).size := by
      split
      · exact Nat.le_refl _
      · exact Nat.zero_le _
    refine ⟨hset.distinct, hset.fits, List.forall_mem_cons.2 ⟨⟨hpos, hfits.2⟩, hset.fds⟩, ?_⟩
    refine List.forall_mem_cons.2 ⟨?_, hset.owned⟩
    show (d.opened flags).addr ∈ (s.setDirent (d.opened flags)).root.map Dirent.addr
    rw [setDirent_addr, opened_addr]
    exact List.mem_map_of_mem hd

theorem get_none (h : s.abs.get a = none) : a ∉ s.root.map Dirent.addr := by
  intro hmem
  obtain ⟨d, hd, hda⟩ := List.mem_map.1 hmem
  rw [get_abs, Option.map_eq_none_iff] at h
  exact List.find?_eq_none.1 h d hd (decide_eq_true hda)

theorem open_abs {mem : Option Addr} (hw : WellFormed s) (hlegal : s.abs.Legal (.ramfsOpen no path flags mem)) :
    Agree (s.call (.ramfsOpen no path flags mem)) (s.abs.call (.ramfsOpen no path flags mem)) := by
  obtain ⟨hnamed, -, hmem⟩ := hlegal
  unfold Agree
  rcases lookup_cases s hnamed with ⟨d, hd, hl, ht⟩ | ⟨hl, ht⟩
  · obtain ⟨habs, hwf⟩ := attach_abs hw hd no flags
    simp only [State.call, State.dfsRamfsOpen, Fs.call, hl, ht, habs]
    exact ⟨_, _, rfl, rfl, hwf⟩
  · simp only [State.call, State.dfsRamfsOpen, Fs.call, hl, ht]
    by_cases hcreat : (flags.creat || flags.wronly) = true
    · simp only [if_pos hcreat]
      cases mem with
      | none => exact ⟨_, s, rfl, rfl, hw⟩
      | some a =>
        have hname : strncpy (subpath path) ramfsNameMax = subpath path :=
          List.take_of_length_le (Nat.le_of_lt hnamed.2)
        rw [hname]
        have hnew : WellFormed { s with root := ⟨a, subpath path, none, 0⟩ :: s.root } := by
          refine ⟨List.nodup_cons.2 ⟨get_none hmem, hw.distinct⟩, ?_, hw.fds, ?_⟩
          · exact List.forall_mem_cons.2 ⟨⟨Nat.zero_le _, Nat.two_pow_pos 32⟩, hw.fits⟩
          · intro f hf
            exact List.mem_cons_of_mem _ (hw.owned f hf)
        obtain ⟨habs, hwf⟩ := attach_abs hnew List.mem_cons_self no flags
        exact ⟨_, _, rfl, congrArg some habs, hwf⟩
    · simp only [if_neg hcreat]
      exact ⟨_, s, rfl, rfl, hw⟩

theorem close_abs (hw : WellFormed s) (hlegal : s.abs.Legal (.ramfsClose no)) :
    Agree (s.call (.ramfsClose no)) (s.abs.call (.ramfsClose no)) := by
  obtain ⟨f, hf⟩ := isSome_handle hlegal
  refine ⟨.ok, { s with fds := s.fds.eraseP fun g => g.no = f.no }, ?_, ?_, hw.distinct, hw.fits, ?_, ?_⟩
  · simp only [State.call, State.dfsRamfsClose, hf, Option.map_some]
  · simp only [Fs.call, handle_abs, hf, Option.map_some]
    unfold State.abs
    rw [List.eraseP_map]
    rfl
  · intro g hg
    exact hw.fds g (List.mem_of_mem_eraseP hg)
  · intro g hg
    exact hw.owned g (List.mem_of_mem_eraseP hg)

/-! ## Names -/

theorem stat_abs (hw : WellFormed s) (hlegal : s.abs.Legal (.ramfsStat path)) :
    Agree (s.call (.ramfsStat path)) (s.abs.call (.ramfsStat path)) := by
  unfold Agree
  rcases lookup_cases s hlegal with ⟨d, hd, hl, ht⟩ | ⟨hl, ht⟩
  · simp only [State.call, State.dfsRamfsStat, Fs.call, hl, ht]
    rw [show d.abs.content.length = _ from length_content (hw.fits d hd)]
    exact ⟨_, s, rfl, rfl, hw⟩
  · simp only [State.call, State.dfsRamfsStat, Fs.call, hl, ht]
    exact ⟨_, s, rfl, rfl, hw⟩

theorem unlink_abs (hw : WellFormed s) (hlegal : s.abs.Legal (.ramfsUnlink path)) :
    Agree (s.call (.ramfsUnlink path)) (s.abs.call (.ramfsUnlink path)) := by
  obtain ⟨hnamed, hfree⟩ := hlegal
  unfold Agree
  rcases lookup_cases s hnamed with ⟨d, hd, hl, ht⟩ | ⟨hl, ht⟩
  · simp only [State.call, State.dfsRamfsUnlink, Fs.call, hl, ht]
    refine ⟨_, { s with root := s.root.eraseP fun e => e.addr = d.addr }, rfl, ?_, ?_, ?_, hw.fds, ?_⟩
    · unfold State.abs
      rw [List.eraseP_map]
      rfl
    · exact hw.distinct.sublist (List.eraseP_sublist.map _)
    · intro e he
      exact hw.fits e (List.mem_of_mem_eraseP he)
    · intro f hf
      obtain ⟨e, he, hea⟩ := List.mem_map.1 (hw.owned f hf)
      have hne : f.data ≠ d.addr := hfree d.abs ht f.abs (List.mem_map_of_mem hf)
      have hkeep : ¬decide (e.addr = d.addr) = true := by
        rw [decide_eq_true_eq, hea]
        exact hne
      exact List.mem_map.2 ⟨e, (List.mem_eraseP_of_neg (p := fun e : Dirent => decide (e.addr = d.addr)) hkeep).2 he, hea⟩
  · simp only [State.call, State.dfsRamfsUnlink, Fs.call, hl, ht]
    exact ⟨_, s, rfl, rfl, hw⟩

theorem rename_abs {oldpath newpath : Path} (hw : WellFormed s) (hlegal : s.abs.Legal (.ramfsRename oldpath newpath))
    (hm : Meets s (.ramfsRename oldpath newpath)) :
    Agree (s.call (.ramfsRename oldpath newpath)) (s.abs.call (.ramfsRename oldpath newpath)) := by
  obtain ⟨hold, hnew⟩ := hlegal
  unfold Agree
  rcases lookup_cases s hnew with ⟨d, -, hl, ht⟩ | ⟨hl, ht⟩
  · simp only [State.call, State.dfsRamfsRename, Fs.call, hl, ht]
    exact ⟨_, s, rfl, rfl, hw⟩
  · rcases lookup_cases s hold with ⟨d, hd, hl', ht'⟩ | ⟨hl', ht'⟩
    · have hsub : subpath newpath = newpath := hm hl (by rw [hl']; nofun)
      have hname : strncpy newpath ramfsNameMax = subpath newpath := by
        rw [hsub]
        exact List.take_of_length_le (by rw [← hsub]; exact Nat.le_of_lt hnew.2)
      simp only [State.call, State.dfsRamfsRename, Fs.call, hl, ht, hl', ht', hname]
      refine ⟨_, _, rfl, ?_, hw.setDirent (d := { d with name := subpath newpath }) (hw.fits d hd)⟩
      rw [setDirent_abs]
      rfl
    · simp only [State.call, State.dfsRamfsRename, Fs.call, hl, ht, hl', ht']
      exact ⟨_, s, rfl, rfl, hw⟩

/-! ## Every run -/

/-- **A call does what the map says**, if the code gets it right. -/
theorem call_abs (hw : WellFormed s) (hlegal : s.abs.Legal c) (hm : Meets s c) : Agree (s.call c) (s.abs.call c) := by
  cases c with
  | ramfsOpen no path flags mem => exact open_abs hw hlegal
  | ramfsRead no count => exact read_abs hw hlegal hm
  | ramfsWrite no buf mem => exact write_abs hw hlegal hm
  | ramfsLseek no offset => exact lseek_abs hw hlegal hm
  | ramfsClose no => exact close_abs hw hlegal
  | ramfsStat path => exact stat_abs hw hlegal
  | ramfsUnlink path => exact unlink_abs hw hlegal
  | ramfsRename oldpath newpath => exact rename_abs hw hlegal hm

theorem initial : Initial (⟨[], []⟩, ⟨[], []⟩) := rfl

theorem runs_abs {r : State × Fs} (h : Runs (fun r c => Meets r.1 c) r) : r.2 = r.1.abs ∧ WellFormed r.1 := by
  refine Run.Reach.inv (I := fun r => r.2 = r.1.abs ∧ WellFormed r.1) ?_ ?_ h
  · rintro r rfl
    exact ⟨rfl, List.nodup_nil, List.forall_mem_nil _, List.forall_mem_nil _, List.forall_mem_nil _⟩
  · rintro ⟨s, t⟩ c r' ⟨ht, hw⟩ hm hs
    have ht : t = s.abs := ht
    subst ht
    unfold step at hs
    split at hs
    · rename_i hlegal
      obtain ⟨out, s₁, hc, ht, hw'⟩ := call_abs hw hlegal hm
      simp only [hc, ht] at hs
      cases hs
      exact ⟨rfl, hw'⟩
    · cases hs

/-- **The RAM file system refines a map from names to byte strings**, in every run of calls that the code gets
right. -/
theorem ramfs_refines (r : State × Fs) (h : Runs (fun r c => Meets r.1 c) r) (c : Call) (hlegal : r.2.Legal c)
    (hm : Meets r.1 c) : Refines r c := by
  obtain ⟨habs, hw⟩ := runs_abs h
  rw [habs] at hlegal
  obtain ⟨out, s', hc, ht, -⟩ := call_abs hw hlegal hm
  refine ⟨out, s', s'.abs, hc, ?_⟩
  rw [habs]
  exact ht

/-- A name of 32 bytes has no terminating zero: it is found under none. -/
example : State.dfsRamfsLookup ⟨[⟨8, strncpy (slash :: List.replicate 31 97) ramfsNameMax, none, 0⟩], []⟩
    (slash :: List.replicate 31 97) = .null := by decide

/-- A file is written by two descriptors, renamed, and appended to by a third, which reads all of it. -/
theorem ramfs_refines_two : ∃ r : State × Fs, r.2.Legal (.ramfsRead 2 8) ∧
    (r.1.call (.ramfsRead 2 8)).map Prod.fst = some (.bytes [1, 2, 9, 4]) ∧ Refines r (.ramfsRead 2 8) := by
  obtain ⟨r, hr, hP⟩ := Run.Reach.exec_ok step (fun r c => Meets r.1 c) initial
    [.ramfsOpen 0 [47, 97] ⟨true, false, false, false⟩ (some 100), .ramfsWrite 0 [1, 2, 3] (some []),
      .ramfsOpen 1 [47, 97] ⟨false, true, false, false⟩ none, .ramfsLseek 1 2, .ramfsWrite 1 [9] none,
      .ramfsRename [47, 97] [98], .ramfsOpen 2 [47, 98] ⟨false, true, false, true⟩ none,
      .ramfsWrite 2 [4] (some [0, 0]), .ramfsLseek 2 0]
    (fun r => decide (r.2.Legal (.ramfsRead 2 8) ∧ Meets r.1 (.ramfsRead 2 8) ∧
      (r.1.call (.ramfsRead 2 8)).map Prod.fst = some (.bytes [1, 2, 9, 4])))
    (by decide)
  obtain ⟨hlegal, hmeets, hcall⟩ := of_decide_eq_true hP
  exact ⟨r, hlegal, hcall, ramfs_refines r hr (.ramfsRead 2 8) hlegal hmeets⟩

theorem not_refines {r : State × Fs} (h : (r.1.call c).map Prod.fst ≠ (r.2.call c).map Prod.fst) : ¬Refines r c := by
  rintro ⟨out, s, t, hc, ht⟩
  rw [hc, ht] at h
  exact h rfl

/-- **A file is shortened by a write, read at `NULL`, and not found under its new name**: `/a` is written by two
descriptors, `/b` is truncated by one of its two, and `/c` is renamed to `/d`. -/
theorem ramfs_lost : ∃ r : State × Fs, Runs Run.Any r ∧
    (r.2.Legal (.ramfsStat [47, 97]) ∧ ¬Refines r (.ramfsStat [47, 97])) ∧
    (r.2.Legal (.ramfsRead 2 1) ∧ ¬Refines r (.ramfsRead 2 1)) ∧
    r.2.Legal (.ramfsStat [47, 100]) ∧ ¬Refines r (.ramfsStat [47, 100]) := by
  obtain ⟨r, hr, hP⟩ := Run.Reach.exec_ok step Run.Any initial
    [.ramfsOpen 0 [47, 97] ⟨true, true, false, false⟩ (some 100), .ramfsOpen 1 [47, 97] ⟨false, true, false, false⟩ none,
      .ramfsWrite 0 [1, 2, 3] (some (List.replicate 12 0)), .ramfsWrite 1 [9] (some (List.replicate 11 0)),
      .ramfsOpen 2 [47, 98] ⟨true, true, false, false⟩ (some 200), .ramfsWrite 2 [5] (some (List.replicate 12 0)),
      .ramfsLseek 2 0, .ramfsOpen 3 [47, 98] ⟨false, true, true, false⟩ none,
      .ramfsOpen 4 [47, 99] ⟨true, true, false, false⟩ (some 300), .ramfsRename [47, 99] [47, 100]]
    (fun r => decide ((r.2.Legal (.ramfsStat [47, 97]) ∧
        (r.1.call (.ramfsStat [47, 97])).map Prod.fst ≠ (r.2.call (.ramfsStat [47, 97])).map Prod.fst) ∧
      (r.2.Legal (.ramfsRead 2 1) ∧
        (r.1.call (.ramfsRead 2 1)).map Prod.fst ≠ (r.2.call (.ramfsRead 2 1)).map Prod.fst) ∧
      r.2.Legal (.ramfsStat [47, 100]) ∧
        (r.1.call (.ramfsStat [47, 100])).map Prod.fst ≠ (r.2.call (.ramfsStat [47, 100])).map Prod.fst))
    (by decide)
  obtain ⟨⟨hlegal₁, h₁⟩, ⟨hlegal₂, h₂⟩, hlegal₃, h₃⟩ := of_decide_eq_true hP
  exact ⟨r, hr, ⟨hlegal₁, not_refines h₁⟩, ⟨hlegal₂, not_refines h₂⟩, hlegal₃, not_refines h₃⟩

end RtThread.Ramfs
