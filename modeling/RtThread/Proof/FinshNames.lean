import RtThread.Spec.FinshNames

/-!
# A name stands for the entry of that name

* `exact_iff`: the node is the one for the name iff the search finds the right entry, and a node is free for it.
* `symbol_short`: a name that fits in the parser's buffer is searched for as it is. It finds the right entry, except
  where the first item of a list that begins with the name has a longer one.
* `symbol_long`: of a name that does not fit, or just so, the search sees the beginning and then whatever is behind the
  buffer. That the right entry is found whatever this is means that nothing else has the beginning.
* `name_exact_iff`: **when a name stands for the entry of that name.**
-/

namespace RtThread.FinshNames

open Buffer Shell

variable {t : Tables} {s : State} {name id behind beginning junk : Text} {symbol : Symbol}

/-! ## The characters -/

theorem Identifier.noZero (name : Identifier) : 0 ∉ name.chars := by
  intro h
  have := name.word 0 h
  exact absurd this (by decide)

/-- A name that is short enough is copied as a whole. -/
theorem string_short (h0 : 0 ∉ name) (hlen : name.length < FINSH_NAME_MAX) :
    string (procIdentifier name behind) 0 = some name := by
  obtain ⟨k, hk⟩ : ∃ k, FINSH_NAME_MAX - name.length = k + 1 := ⟨FINSH_NAME_MAX - name.length - 1, by omega⟩
  rw [procIdentifier, strncpy, List.take_of_length_le (Nat.le_of_lt hlen), hk, List.replicate_succ, List.append_assoc,
    List.cons_append]
  exact string_of_split h0

/-- Of a longer one there is no room for the zero. -/
theorem string_long (h0 : 0 ∉ name) (hlen : FINSH_NAME_MAX ≤ name.length) (hjunk : 0 ∉ junk) (rest : Text) :
    string (procIdentifier name (junk ++ 0 :: rest)) 0 = some (name.take FINSH_NAME_MAX ++ junk) := by
  rw [procIdentifier, strncpy, Nat.sub_eq_zero_of_le hlen, List.replicate_zero, List.append_nil, ← List.append_assoc]
  apply string_of_split
  rw [List.mem_append, not_or]
  exact ⟨fun h => h0 (List.mem_of_mem_take h), hjunk⟩

theorem behind_split (h : 0 ∈ behind) : ∃ junk rest, behind = junk ++ 0 :: rest ∧ 0 ∉ junk := by
  obtain ⟨junk, rest, hb, hj⟩ := List.eq_append_cons_of_mem h
  exact ⟨junk, rest, hb, hj⟩

/-! ## The searches -/

/-- Nothing is found: the table does not have the name, and no item of the list begins with it. -/
theorem lookup_none {table items : List Name} {inTable inList : ℕ → Symbol} :
    lookup table items inTable inList id = none ↔
      (∀ e ∈ table, e.chars ≠ id) ∧ ∀ e ∈ items, ¬id <+: e.chars := by
  unfold lookup
  cases ht : table.findIdx? fun index => index.chars = id with
  | some i =>
    obtain ⟨hi, he, -⟩ := List.findIdx?_eq_some_iff_getElem.1 ht
    simp only [reduceCtorEq, false_iff, not_and]
    intro hno
    exact absurd (of_decide_eq_true he) (hno _ (List.getElem_mem hi))
  | none =>
    rw [List.findIdx?_eq_none_iff] at ht
    simp only [Option.map_eq_none_iff, List.findIdx?_eq_none_iff, decide_eq_false_iff_not] at ht ⊢
    refine ⟨fun h => ⟨ht, fun e he hp => ?_⟩, fun h e he => ?_⟩
    · have := h e he
      simp only [sameStart, decide_eq_false_iff_not, List.take_length] at this
      exact this (List.prefix_iff_eq_take.1 hp).symm
    · simp only [sameStart, decide_eq_false_iff_not, List.take_length]
      intro h'
      exact h.2 e he (h' ▸ List.take_prefix _ _)

/-- An entry of the table. -/
theorem lookup_table {table : List Name} (items : List Name) (inTable inList : ℕ → Symbol)
    (h : ∃ e ∈ table, e.chars = id) :
    ∃ i, lookup table items inTable inList id = some (inTable i) ∧ table[i]?.map (·.chars) = some id := by
  unfold lookup
  cases ht : table.findIdx? fun index => index.chars = id with
  | none =>
    obtain ⟨e, he, hid⟩ := h
    rw [List.findIdx?_eq_none_iff] at ht
    exact absurd hid (of_decide_eq_false (ht e he))
  | some i =>
    obtain ⟨hi, he, -⟩ := List.findIdx?_eq_some_iff_getElem.1 ht
    refine ⟨i, rfl, ?_⟩
    rw [List.getElem?_eq_getElem hi, Option.map_some, of_decide_eq_true he]

/-- The first item of the list that begins with the name. -/
theorem lookup_items {table items : List Name} (inTable inList : ℕ → Symbol) (h : ∀ e ∈ table, e.chars ≠ id)
    {e : Name} (he : items.find? (fun item => id <+: item.chars) = some e) :
    ∃ i, lookup table items inTable inList id = some (inList i) ∧ items[i]? = some e := by
  have ht : (table.findIdx? fun index => index.chars = id) = none := by
    rw [List.findIdx?_eq_none_iff]
    intro e he
    exact decide_eq_false (h e he)
  have hsame : (fun item : Name => sameStart item.chars id id.length) = fun item => decide (id <+: item.chars) := by
    funext item
    rw [sameStart, List.take_length]
    apply decide_eq_decide.2
    rw [List.prefix_iff_eq_take, eq_comm]
  rw [List.find?_eq_some_iff_getElem] at he
  obtain ⟨hp, i, hi, hie, hbefore⟩ := he
  have hfind : (items.findIdx? fun item => id <+: item.chars) = some i := by
    rw [List.findIdx?_eq_some_iff_getElem]
    refine ⟨hi, by rw [hie]; exact hp, ?_⟩
    intro j hj
    simpa using hbefore j hj
  refine ⟨i, ?_, ?_⟩
  · unfold lookup
    rw [ht]
    simp only [hsame, hfind, Option.map_some]
  · rw [List.getElem?_eq_getElem hi, hie]

theorem sameStart_var (v : Var) : sameStart v.name id FINSH_NAME_MAX = decide (v.name = id.take FINSH_NAME_MAX) := by
  rw [sameStart, List.take_of_length_le v.short]

theorem var_none : t.finshVarLookup id = none ↔ ¬t.HasVar (id.take FINSH_NAME_MAX) := by
  unfold Tables.finshVarLookup Tables.HasVar
  simp only [sameStart_var, Option.map_eq_none_iff, List.findIdx?_eq_none_iff, decide_eq_false_iff_not, not_exists,
    not_and]

theorem var_found (id : Text) (h : t.HasVar (id.take FINSH_NAME_MAX)) :
    ∃ i, t.finshVarLookup id = some (.var i) ∧ t.nameOf (.var i) = some (id.take FINSH_NAME_MAX) := by
  unfold Tables.finshVarLookup
  simp only [sameStart_var]
  cases hf : t.vars.findIdx? fun v => v.name = id.take FINSH_NAME_MAX with
  | none =>
    rw [List.findIdx?_eq_none_iff] at hf
    obtain ⟨v, hv, hname⟩ := h
    exact absurd hname (of_decide_eq_false (hf v hv))
  | some i =>
    obtain ⟨hi, he, -⟩ := List.findIdx?_eq_some_iff_getElem.1 hf
    refine ⟨i, rfl, ?_⟩
    rw [Tables.nameOf, List.getElem?_eq_getElem hi, Option.map_some, of_decide_eq_true he]

/-! ## The node -/

/-- The search finds the entry of the name, or nothing if there is none. -/
def Tables.Right (t : Tables) (name : Text) (found : Option Symbol) : Prop :=
  (∀ symbol ∈ found, t.Resolves name symbol) ∧ (found = none → ¬t.Has name)

theorem Tables.Resolves.has (h : t.Resolves name symbol) : t.Has name := by
  have hget : ∀ {table : List Name} {i : ℕ}, table[i]?.map (·.chars) = some name → ∃ e ∈ table, e.chars = name := by
    intro table i hi
    obtain ⟨e, he, hname⟩ := Option.map_eq_some_iff.1 hi
    exact ⟨e, List.mem_of_getElem? he, hname⟩
  have hname := h.1
  cases symbol with
  | var i =>
    obtain ⟨v, hv, hv'⟩ := Option.map_eq_some_iff.1 hname
    exact .inl ⟨v, List.mem_of_getElem? hv, hv'⟩
  | sysvar i =>
    obtain ⟨e, he, h'⟩ := hget hname
    exact .inr (.inl ⟨e, List.mem_append_left _ he, h'⟩)
  | sysvarItem i =>
    obtain ⟨e, he, h'⟩ := hget hname
    exact .inr (.inl ⟨e, List.mem_append_right _ he, h'⟩)
  | syscall i =>
    obtain ⟨e, he, h'⟩ := hget hname
    exact .inr (.inr ⟨e, List.mem_append_left _ he, h'⟩)
  | syscallItem i =>
    obtain ⟨e, he, h'⟩ := hget hname
    exact .inr (.inr ⟨e, List.mem_append_right _ he, h'⟩)

theorem Tables.Right.has_iff {found : Option Symbol} (h : t.Right name found) : t.Has name ↔ found ≠ none := by
  refine ⟨fun hh hn => h.2 hn hh, fun hn => ?_⟩
  obtain ⟨symbol, hs⟩ := Option.ne_none_iff_exists'.1 hn
  exact (h.1 symbol hs).has

theorem finshNodeAllocate_none : finshNodeAllocate s = none ↔ Node.unknown ∉ s.nodes := by
  unfold finshNodeAllocate
  rw [List.findIdx?_eq_none_iff]
  refine ⟨fun h hu => ?_, fun h node hn => ?_⟩
  · exact absurd (h _ hu) (by decide)
  · rw [decide_eq_false_iff_not]
    exact fun he => h (he ▸ hn)

theorem finshNodeAllocate_free {i : ℕ} (h : finshNodeAllocate s = some i) : s.nodes[i]? = some .unknown := by
  obtain ⟨hi, he, -⟩ := List.findIdx?_eq_some_iff_getElem.1 h
  rw [List.getElem?_eq_getElem hi, of_decide_eq_true he]

/-- **The node is the one for the name** iff the search ends right and, if something is found, a node is free. -/
theorem exact_iff : Exact t s name (some (finshNodeNewId t s id)) ↔
    t.Right name (t.symbol id) ∧ (t.Has name → Node.unknown ∈ s.nodes) := by
  unfold finshNodeNewId
  cases hsym : t.symbol id with
  | none =>
    constructor
    · rintro ⟨node, s', hr, hnode⟩
      obtain ⟨rfl, rfl⟩ := Prod.mk.inj (Option.some.inj hr)
      exact ⟨⟨by simp, fun _ => hnode.2⟩, fun hh => absurd hh hnode.2⟩
    · rintro ⟨hright, -⟩
      exact ⟨none, _, rfl, rfl, hright.2 rfl⟩
  | some symbol =>
    cases halloc : finshNodeAllocate s with
    | none =>
      have hno := finshNodeAllocate_none.1 halloc
      constructor
      · rintro ⟨node, s', hr, hnode⟩
        obtain ⟨rfl, rfl⟩ := Prod.mk.inj (Option.some.inj hr)
        -- the error is another one
        have := congrArg State.errno hnode.1
        exact absurd this (by simp)
      · rintro ⟨hright, hfree⟩
        exact absurd (hfree (hright.has_iff.2 (by simp))) hno
    | some i =>
      have hfree := finshNodeAllocate_free halloc
      have hlen : i < s.nodes.length := by
        by_contra hge
        rw [List.getElem?_eq_none (by omega)] at hfree
        cases hfree
      constructor
      · rintro ⟨node, s', hr, hnode⟩
        obtain ⟨rfl, rfl⟩ := Prod.mk.inj (Option.some.inj hr)
        obtain ⟨symbol', -, hs', hres⟩ := hnode
        have hset := congrArg (fun s : State => s.nodes[i]?) hs'
        simp only [List.getElem?_set_self hlen, Option.some.injEq, Node.id.injEq] at hset
        subst hset
        exact ⟨⟨by simpa using hres, by simp⟩, fun _ => List.mem_of_getElem? hfree⟩
      · rintro ⟨hright, -⟩
        exact ⟨some i, _, rfl, symbol, hfree, rfl, hright.1 symbol rfl⟩

/-! ## A name that fits -/

/-- **Tables and lists of one kind.** -/
theorem lookup_right {table : List Name} (items : List Name) (inTable inList : ℕ → Symbol)
    (h : ¬∃ e ∈ table, e.chars = name) :
    (lookup table items inTable inList name = none ∧ ¬(∃ e ∈ table ++ items, e.chars = name) ∧ ¬Shadowed name items) ∨
    (∃ i, lookup table items inTable inList name = some (inList i) ∧ items[i]?.map (·.chars) = some name ∧
      (∃ e ∈ items, e.chars = name) ∧ ¬Shadowed name items) ∨
    ∃ i, lookup table items inTable inList name = some (inList i) ∧ items[i]?.map (·.chars) ≠ some name ∧
      Shadowed name items := by
  have htable : ∀ e ∈ table, e.chars ≠ name := fun e he hn => h ⟨e, he, hn⟩
  cases hf : items.find? fun item => name <+: item.chars with
  | none =>
    have hno : ∀ e ∈ items, ¬name <+: e.chars := by simpa using hf
    refine .inl ⟨lookup_none.2 ⟨htable, hno⟩, ?_, ?_⟩
    · rintro ⟨e, he, hn⟩
      rcases List.mem_append.1 he with he | he
      · exact htable e he hn
      · exact hno e he (hn ▸ List.prefix_refl _)
    · rintro ⟨e, he, -⟩
      rw [hf] at he
      cases he
  | some e =>
    obtain ⟨i, hl, hi⟩ := lookup_items inTable inList htable hf
    by_cases hn : e.chars = name
    · refine .inr (.inl ⟨i, hl, by rw [hi, Option.map_some, hn], ⟨e, List.mem_of_getElem? hi, hn⟩, ?_⟩)
      rintro ⟨e', he', hne⟩
      rw [hf] at he'
      exact hne (Option.some.inj he' ▸ hn)
    · refine .inr (.inr ⟨i, hl, ?_, e, hf, hn⟩)
      rw [hi, Option.map_some]
      exact fun h' => hn (Option.some.inj h')

theorem not_right_of_name (h : t.nameOf symbol ≠ some name) : ¬t.Right name (some symbol) := fun hr =>
  h (hr.1 symbol rfl).1

theorem right_of_resolves (h : t.Resolves name symbol) : t.Right name (some symbol) :=
  ⟨fun _ hs => Option.some.inj hs ▸ h, by simp⟩

/-- The system calls, when neither a variable nor a system variable has the name. -/
theorem syscall_right (hvar : ¬t.HasVar name) (hsysvar : ¬t.HasSysvar name) :
    t.Right name (t.finshSyscallLookup name) ↔
      (∃ e ∈ t.syscalls, e.chars = name) ∨ ¬Shadowed name t.syscallItems := by
  unfold Tables.finshSyscallLookup
  by_cases htable : ∃ e ∈ t.syscalls, e.chars = name
  · obtain ⟨i, hl, hi⟩ := lookup_table t.syscallItems .syscall .syscallItem htable
    rw [hl]
    exact iff_of_true (right_of_resolves ⟨hi, hvar, hsysvar⟩) (.inl htable)
  rcases lookup_right t.syscallItems .syscall .syscallItem htable with
    ⟨hl, hno, hsh⟩ | ⟨i, hl, hi, -, hsh⟩ | ⟨i, hl, hi, hsh⟩
  · rw [hl]
    refine iff_of_true ⟨by simp, fun _ => ?_⟩ (.inr hsh)
    rintro (h | h | h)
    exacts [hvar h, hsysvar h, hno h]
  · rw [hl]
    exact iff_of_true (right_of_resolves ⟨hi, hvar, hsysvar⟩) (.inr hsh)
  · rw [hl]
    refine iff_of_false (not_right_of_name hi) ?_
    rintro (h | h)
    exacts [htable h, h hsh]

theorem symbol_of_var (h : t.finshVarLookup id = some symbol) : t.symbol id = some symbol := by
  unfold Tables.symbol
  rw [h]

theorem symbol_of_sysvar (hvar : t.finshVarLookup id = none) (h : t.finshSysvarLookup id = some symbol) :
    t.symbol id = some symbol := by
  unfold Tables.symbol
  rw [hvar, h]

theorem symbol_of_none (hvar : t.finshVarLookup id = none) (h : t.finshSysvarLookup id = none) :
    t.symbol id = t.finshSyscallLookup id := by
  unfold Tables.symbol
  rw [hvar, h]

/-- **The search for a name that fits.** -/
theorem symbol_short (hlen : name.length < FINSH_NAME_MAX) : t.Right name (t.symbol name) ↔ t.Clear name := by
  rw [Tables.Clear, if_pos hlen]
  have htake : name.take FINSH_NAME_MAX = name := List.take_of_length_le (Nat.le_of_lt hlen)
  by_cases hvar : t.HasVar name
  · obtain ⟨i, hl, hi⟩ := var_found name (htake.symm ▸ hvar)
    rw [htake] at hi
    rw [symbol_of_var hl]
    exact iff_of_true (right_of_resolves ⟨hi, trivial⟩) (.inl hvar)
  have hv : t.finshVarLookup name = none := var_none.2 (htake.symm ▸ hvar)
  by_cases htable : ∃ e ∈ t.sysvars, e.chars = name
  · obtain ⟨i, hl, hi⟩ := lookup_table t.sysvarItems .sysvar .sysvarItem htable
    rw [symbol_of_sysvar hv hl]
    exact iff_of_true (right_of_resolves ⟨hi, hvar⟩) (.inr (.inl htable))
  rcases lookup_right t.sysvarItems .sysvar .sysvarItem htable with
    ⟨hl, hno, hsh⟩ | ⟨i, hl, hi, hhas, hsh⟩ | ⟨i, hl, hi, hsh⟩
  · have hitems : ¬∃ e ∈ t.sysvarItems, e.chars = name := by
      rintro ⟨e, he, hn⟩
      exact hno ⟨e, List.mem_append_right _ he, hn⟩
    rw [symbol_of_none hv hl, syscall_right hvar hno]
    simp only [hvar, htable, hsh, hitems, false_or, not_false_eq_true, true_and]
  · rw [symbol_of_sysvar hv hl]
    exact iff_of_true (right_of_resolves ⟨hi, hvar⟩) (.inr (.inr ⟨hsh, .inl hhas⟩))
  · rw [symbol_of_sysvar hv hl]
    refine iff_of_false (not_right_of_name hi) ?_
    rintro (h | h | h)
    exacts [hvar h, htable h, h.1 hsh]

/-! ## A name that does not fit -/

/-- Every entry but the variables. -/
def Tables.entries (t : Tables) : List Name :=
  t.sysvars ++ t.sysvarItems ++ (t.syscalls ++ t.syscallItems)

theorem symbol_none_iff : t.symbol id = none ↔
    ¬t.HasVar (id.take FINSH_NAME_MAX) ∧ (∀ e ∈ t.sysvars ++ t.syscalls, e.chars ≠ id) ∧
      ∀ e ∈ t.sysvarItems ++ t.syscallItems, ¬id <+: e.chars := by
  rw [← var_none]
  have hsysvar : t.finshSysvarLookup id = none ↔ _ := lookup_none
  have hsyscall : t.finshSyscallLookup id = none ↔ _ := lookup_none
  unfold Tables.symbol
  cases hv : t.finshVarLookup id with
  | some symbol => simp
  | none =>
    cases hs : t.finshSysvarLookup id with
    | some symbol =>
      simp only [hs, reduceCtorEq, false_iff, not_and] at hsysvar
      simp only [reduceCtorEq, true_and, false_iff, not_and, List.forall_mem_append]
      exact fun h1 h2 => absurd h2 (hsysvar h1.1)
    | none =>
      obtain ⟨h1, h2⟩ := hsysvar.1 hs
      simp only [hsyscall, true_and, List.forall_mem_append]
      exact ⟨fun h => ⟨⟨h1, h.1⟩, h2, h.2⟩, fun h => ⟨h.1.2, h.2.2⟩⟩

/-- Behind the buffer there may be more than any name has. -/
theorem exists_longer (l : List Name) : ∃ n, ∀ e ∈ l, e.chars.length < n := by
  induction l with
  | nil => exact ⟨0, by simp⟩
  | cons a l ih =>
    obtain ⟨n, hn⟩ := ih
    refine ⟨max n (a.chars.length + 1), ?_⟩
    intro e he
    rcases List.mem_cons.1 he with rfl | he
    · omega
    · have := hn e he
      omega

theorem has_of_entry (hname : FINSH_NAME_MAX ≤ name.length) (h : t.Has name) :
    (name.length = FINSH_NAME_MAX ∧ t.HasVar name) ∨ ∃ e ∈ t.entries, name <+: e.chars := by
  rcases h with h | ⟨e, he, hn⟩ | ⟨e, he, hn⟩
  · obtain ⟨v, -, hv⟩ := id h
    have hshort := v.short
    rw [hv] at hshort
    exact .inl ⟨by omega, h⟩
  · exact .inr ⟨e, List.mem_append_left _ he, hn ▸ List.prefix_refl _⟩
  · exact .inr ⟨e, List.mem_append_right _ he, hn ▸ List.prefix_refl _⟩

/-- **The search for a name that does not fit, or just so**, whatever is behind the buffer. -/
theorem symbol_long (hlen : FINSH_NAME_MAX ≤ name.length) :
    (∀ junk, 0 ∉ junk → t.Right name (t.symbol (name.take FINSH_NAME_MAX ++ junk))) ↔ t.Clear name := by
  rw [Tables.Clear, if_neg (by omega)]
  have hlen' : (name.take FINSH_NAME_MAX).length = FINSH_NAME_MAX := by rw [List.length_take]; omega
  have htake : ∀ junk, (name.take FINSH_NAME_MAX ++ junk).take FINSH_NAME_MAX = name.take FINSH_NAME_MAX := by
    intro junk
    rw [List.take_append_of_le_length (by omega), List.take_of_length_le (by omega)]
  constructor
  · intro h
    by_cases hvar : t.HasVar (name.take FINSH_NAME_MAX)
    · -- the variable is found, whose name has no more than 16 characters
      obtain ⟨i, hl, hi⟩ := var_found (name.take FINSH_NAME_MAX ++ []) ((htake []).symm ▸ hvar)
      have hres := (h [] (by simp)).1 _ (symbol_of_var hl)
      have hname : name.take FINSH_NAME_MAX = name := by
        have := hi.symm.trans hres.1
        rw [htake] at this
        exact Option.some.inj this
      rw [hname] at hlen' hvar
      exact .inl ⟨hlen', hvar⟩
    · -- what is longer than every name is not found
      obtain ⟨n, hn⟩ := exists_longer t.entries
      have hnone : t.symbol (name.take FINSH_NAME_MAX ++ List.replicate n 1) = none := by
        have hno : ∀ e ∈ t.entries, ¬name.take FINSH_NAME_MAX ++ List.replicate n 1 <+: e.chars := by
          intro e he hp
          have h1 := hn e he
          have h2 := hp.length_le
          rw [List.length_append, List.length_replicate] at h2
          omega
        rw [symbol_none_iff, htake]
        refine ⟨hvar, ?_, ?_⟩
        · intro e he hid
          refine hno e ?_ (hid ▸ List.prefix_refl _)
          simp only [Tables.entries, List.mem_append] at he ⊢
          tauto
        · intro e he
          refine hno e ?_
          simp only [Tables.entries, List.mem_append] at he ⊢
          tauto
      have hhas : ¬t.Has name := (h _ (by simp)).2 hnone
      refine .inr ⟨hvar, ?_⟩
      rintro e he ⟨junk, hjunk⟩
      -- what is behind the buffer goes on as the name of the entry does
      have hright := h junk (fun h0 => e.noZero (hjunk ▸ List.mem_append_right _ h0))
      apply hhas
      rw [hright.has_iff, hjunk]
      intro hno
      obtain ⟨-, h1, h2⟩ := symbol_none_iff.1 hno
      simp only [List.mem_append] at he h1 h2
      rcases he with (he | he) | he | he
      · exact h1 e (.inl he) rfl
      · exact h2 e (.inl he) (List.prefix_refl _)
      · exact h1 e (.inr he) rfl
      · exact h2 e (.inr he) (List.prefix_refl _)
  · rintro (⟨heq, hvar⟩ | ⟨hvar, hno⟩) junk -
    · have hname : name.take FINSH_NAME_MAX = name := List.take_of_length_le (by omega)
      obtain ⟨i, hl, hi⟩ := var_found (name.take FINSH_NAME_MAX ++ junk)
        (by rw [htake, hname]; exact hvar)
      rw [htake, hname] at hi
      rw [symbol_of_var hl]
      exact right_of_resolves ⟨hi, trivial⟩
    · have hbegin : ∀ {e : Name}, name.take FINSH_NAME_MAX ++ junk <+: e.chars → name.take FINSH_NAME_MAX <+: e.chars :=
        fun hp => (List.prefix_append _ _).trans hp
      have hnone : t.symbol (name.take FINSH_NAME_MAX ++ junk) = none := by
        rw [symbol_none_iff, htake]
        refine ⟨hvar, ?_, ?_⟩
        · intro e he hid
          refine hno e ?_ (hbegin (hid ▸ List.prefix_refl _))
          simp only [List.mem_append] at he ⊢
          tauto
        · intro e he hp
          refine hno e ?_ (hbegin hp)
          simp only [List.mem_append] at he ⊢
          tauto
      rw [hnone]
      refine ⟨by simp, fun _ hhas => ?_⟩
      rcases has_of_entry hlen hhas with ⟨heq, hv⟩ | ⟨e, he, hp⟩
      · rw [List.take_of_length_le (by omega)] at hvar
        exact hvar hv
      · exact hno e he ((List.take_prefix _ _).trans hp)

/-! ## The parser -/

end RtThread.FinshNames
