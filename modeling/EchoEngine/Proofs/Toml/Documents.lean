import EchoEngine.Proofs.Toml.Values

/-!
# Documents that are written and read

A document is read line by line, and each line is a step from one document to the next one (`LeadsTo`): a header opens
a table at the end, and an assignment goes to the end of the open table.  So sections under different names, each with
different keys, come back as they were written (`parse?_writeSections?`).
-/

namespace EchoEngine.Toml

/-! ### Keys -/

/-- A name that needs no quotes. -/
def IsKey (name : String) : Prop :=
  name.toList ≠ [] ∧ ∀ c ∈ name.toList, isBare c = true

theorem ne_of_isBare {c : Char} (h : isBare c = true) : IsVisible c ∧ c ∉ ['[', ']', '"', '\'', '=', '.'] := by
  constructor
  all_goals
    intro hmem
    simp only [List.mem_cons, List.not_mem_nil, or_false] at hmem
  · rcases hmem with rfl | rfl | rfl | rfl | rfl <;> exact absurd h (by decide)
  · rcases hmem with rfl | rfl | rfl | rfl | rfl | rfl <;> exact absurd h (by decide)

section

variable {name : String} (hname : IsKey name)

include hname

theorem IsKey.exists_cons : ∃ c cs, name.toList = c :: cs ∧ IsVisible c ∧ c ∉ ['[', ']', '"', '\'', '=', '.'] := by
  obtain ⟨hne, hbare⟩ := hname
  obtain ⟨c, cs, htext⟩ := List.exists_cons_of_ne_nil hne
  exact ⟨c, cs, htext, ne_of_isBare (hbare c (htext ▸ .head _))⟩

theorem IsKey.append_ne_cons {c : Char} (hc : c ∈ ['[', ']', '"', '\'', '=', '.']) (rest tail : List Char) :
    name.toList ++ rest ≠ c :: tail := by
  obtain ⟨d, ds, htext, -, hd⟩ := hname.exists_cons
  rw [htext]
  intro heq
  exact hd ((List.cons_eq_cons.1 heq).1 ▸ hc)

theorem IsKey.part?_append {c : Char} (hc : isBare c = false) (tail : List Char) :
    part? (name.toList ++ c :: tail) = some (name, c :: tail) := by
  obtain ⟨d, ds, htext, -, -⟩ := hname.exists_cons
  have hstop : ¬isBare c = true := Bool.eq_false_iff.1 hc
  rw [part?, List.takeWhile_append_of_pos hname.2, List.dropWhile_append_of_pos hname.2,
    List.takeWhile_cons_of_neg hstop, List.dropWhile_cons_of_neg hstop, List.append_nil]
  · rw [htext]
    dsimp only
    rw [← htext, String.ofList_toList]
  · exact hname.append_ne_cons (by decide) _
  · exact hname.append_ne_cons (by decide) _

/-- A name ends at a character that cannot be part of one, unless a dot leads on. -/
theorem IsKey.key?_append {c d : Char} (hc : isBare c = false) {tail rest : List Char}
    (hskip : skipSpace (c :: tail) = d :: rest) (hdot : d ≠ '.') (fuel : Nat) :
    key? (fuel + 1) (name.toList ++ c :: tail) = some (([], name), d :: rest) := by
  have hstart : skipSpace (name.toList ++ c :: tail) = name.toList ++ c :: tail := by
    obtain ⟨d, ds, htext, hd, -⟩ := hname.exists_cons
    rw [htext]
    exact skipSpace_cons hd _
  rw [key?, hstart, hname.part?_append hc, Option.bind_eq_bind, Option.bind_some]
  dsimp only
  rw [hskip]
  split
  · rename_i heq
    exact absurd (List.cons_eq_cons.1 heq).1 hdot
  · rfl

end

/-! ### Statements -/

/-- The line of an assignment. -/
theorem statement?_assignment {key : String} (hkey : IsKey key) {text : List Char} {v : Json}
    (hread : Reads maxDepth text v) (rest : List Char) :
    statement? (key.toList ++ ' ' :: '=' :: ' ' :: (text ++ '\n' :: rest)) = some (.assignment [] key v, rest) := by
  have hskip : skipSpace (' ' :: (text ++ '\n' :: rest)) = text ++ '\n' :: rest := by
    obtain ⟨d, ds, rfl, hd, -⟩ := hread.visible
    exact skipSpace_cons hd _
  have hparsed : key? maxParts (key.toList ++ ' ' :: '=' :: ' ' :: (text ++ '\n' :: rest)) =
      some (([], key), '=' :: ' ' :: (text ++ '\n' :: rest)) :=
    hkey.key?_append (by decide) rfl (by decide) 78
  have hvalue : value? (2 * (' ' :: (text ++ '\n' :: rest)).length + 2) maxDepth (text ++ '\n' :: rest) =
      some (v, '\n' :: rest) := by
    refine hread.value?_eq _ _ ?_ ⟨'\n', rest, rfl, .inl rfl⟩
    simp only [List.length_cons, List.length_append]
    omega
  rw [statement?, hparsed, Option.bind_eq_bind, Option.bind_some]
  · change (value? _ maxDepth (skipSpace (' ' :: (text ++ '\n' :: rest)))).bind _ = _
    rw [hskip, hvalue]
    rfl
  · exact fun _ => hkey.append_ne_cons (by decide) _ _
  · exact hkey.append_ne_cons (by decide) _

/-- The line of a header. -/
theorem statement?_header {name : String} (hname : IsKey name) (rest : List Char) :
    statement? ('[' :: (name.toList ++ ']' :: '\n' :: rest)) = some (.header [] name, rest) := by
  have hparsed : key? maxParts (name.toList ++ ']' :: '\n' :: rest) = some (([], name), ']' :: '\n' :: rest) :=
    hname.key?_append (by decide) rfl (by decide) 78
  rw [statement?, hparsed, Option.bind_eq_bind, Option.bind_some]
  · rfl
  · exact hname.append_ne_cons (by decide) _

/-! ### Runs of statements -/

/-- A text leads from one document to another one, given fuel for each of its characters. -/
def LeadsTo (d : Document) (cs : List Char) (d' : Document) : Prop :=
  ∀ fuel, cs.length < fuel → statements? fuel d cs = some d'

variable {d d₁ d' : Document} {cs : List Char}

attribute [local simp] statements?

theorem leadsTo_nil (d : Document) : LeadsTo d [] d := by
  intro fuel hfuel
  obtain ⟨fuel, rfl⟩ := Nat.exists_eq_succ_of_ne_zero (Nat.ne_zero_of_lt hfuel)
  simp [skipSpace]

theorem LeadsTo.blank (h : LeadsTo d cs d') : LeadsTo d ('\n' :: cs) d' := by
  intro fuel hfuel
  obtain ⟨fuel, rfl⟩ := Nat.exists_eq_succ_of_ne_zero (Nat.ne_zero_of_lt hfuel)
  exact h fuel (Nat.lt_of_succ_lt_succ hfuel)

theorem LeadsTo.statement {c : Char} {tail rest : List Char} {s : Statement} (h : LeadsTo d₁ rest d') (hc : IsVisible c)
    (hread : statement? (c :: tail) = some (s, rest)) (hless : rest.length < (c :: tail).length)
    (hadd : d.add s = some d₁) : LeadsTo d (c :: tail) d' := by
  intro fuel hfuel
  obtain ⟨fuel, rfl⟩ := Nat.exists_eq_succ_of_ne_zero (Nat.ne_zero_of_lt hfuel)
  rw [statements?, skipSpace_cons hc]
  split
  case h_1 heq => cases heq
  case h_5 =>
    rw [hread, Option.bind_eq_bind, Option.bind_some]
    change (d.add s).bind _ = _
    rw [hadd]
    exact h fuel (by omega)
  all_goals
    rename_i heq
    rw [(List.cons_eq_cons.1 heq).1] at hc
    exact absurd hc (by decide)

/-! ### Sections -/

/-- The items of a table with these members. -/
def tableOf (members : List (String × Json)) : Items :=
  members.map fun m => (m.1, .value m.2)

/-- The items of a document with these sections. -/
def itemsOf (sections : List (String × List (String × Json))) : Items :=
  sections.map fun s => (s.1, .table false false (tableOf s.2))

theorem itemsToJson_tableOf (members : List (String × Json)) : itemsToJson (tableOf members) = members := by
  induction members with
  | nil => rfl
  | cons m members ih =>
    change (m.1, m.2) :: itemsToJson (tableOf members) = _
    rw [ih]

theorem itemsToJson_itemsOf (sections : List (String × List (String × Json))) :
    itemsToJson (itemsOf sections) = sections.map fun s => (s.1, .obj s.2) := by
  induction sections with
  | nil => rfl
  | cons s sections ih =>
    change (s.1, .obj (itemsToJson (tableOf s.2))) :: itemsToJson (itemsOf sections) = _
    rw [itemsToJson_tableOf, ih]
    rfl

section

variable {items : Items} {key : String} (hkey : key ∉ items.map Prod.fst)

include hkey

theorem lookup_eq_none : items.lookup key = none := by
  rw [List.lookup_eq_none_iff]
  intro i hi
  rw [bne_iff_ne]
  rintro rfl
  exact hkey (List.mem_map_of_mem hi)

theorem lookup_append_self (item : Item) : (items ++ [(key, item)]).lookup key = some item := by
  rw [List.lookup_append, lookup_eq_none hkey, Option.none_or, List.lookup_cons_self]

theorem set_append_self (old item : Item) :
    Items.set key item (items ++ [(key, old)]) = items ++ [(key, item)] := by
  induction items with
  | nil => exact if_pos rfl
  | cons i items ih =>
    rw [List.map_cons, List.mem_cons, not_or] at hkey
    rw [List.cons_append, Items.set, if_neg (Ne.symm hkey.1), ih hkey.2, List.cons_append]

end

theorem map_fst_tableOf (members : List (String × Json)) : (tableOf members).map Prod.fst = members.map Prod.fst := by
  rw [tableOf, List.map_map]
  rfl

theorem map_fst_itemsOf (sections : List (String × List (String × Json))) :
    (itemsOf sections).map Prod.fst = sections.map Prod.fst := by
  rw [itemsOf, List.map_map]
  rfl

/-- A header opens a table at the end. -/
theorem add_header {items : Items} {current : List String} {name : String} (hname : name ∉ items.map Prod.fst) :
    Document.add ⟨items, current⟩ (.header [] name) = some ⟨items ++ [(name, .table false false [])], [name]⟩ := by
  simp only [Document.add, Items.update, Items.openTable, lookup_eq_none hname]
  rfl

/-- An assignment goes to the end of the open table. -/
theorem add_assignment {items : Items} {members : List (String × Json)} {name key : String} (v : Json)
    (hname : name ∉ items.map Prod.fst) (hkey : key ∉ members.map Prod.fst) :
    Document.add ⟨items ++ [(name, .table false false (tableOf members))], [name]⟩ (.assignment [] key v) =
      some ⟨items ++ [(name, .table false false (tableOf (members ++ [(key, v)])))], [name]⟩ := by
  have hfree : (tableOf members).lookup key = none := lookup_eq_none (by rwa [map_fst_tableOf])
  have htable : tableOf members ++ [(key, .value v)] = tableOf (members ++ [(key, v)]) := by
    rw [tableOf, tableOf, List.map_append]
    rfl
  simp only [Document.add, Items.update, Items.assign, lookup_append_self hname, hfree, htable, set_append_self hname]
  rfl

/-- Members under different keys whose values are read back. -/
structure Tabular (members : List (String × Json)) : Prop where
  nodup_keys : (members.map Prod.fst).Nodup
  isKey : ∀ m ∈ members, IsKey m.1
  readsBack : ∀ m ∈ members, ReadsBack maxDepth m.2

/-- The lines of members are read one after another. -/
theorem LeadsTo.lines {items : Items} {name : String} {done members : List (String × Json)} {lines : List String}
    (h : LeadsTo ⟨items ++ [(name, .table false false (tableOf (done ++ members)))], [name]⟩ cs d')
    (hwrite : members.mapM writeLine? = some lines) (hname : name ∉ items.map Prod.fst)
    (hmembers : Tabular (done ++ members)) :
    LeadsTo ⟨items ++ [(name, .table false false (tableOf done))], [name]⟩ ((String.join lines).toList ++ cs) d' := by
  induction members generalizing done lines with
  | nil =>
    cases hwrite
    rwa [List.append_nil] at h
  | cons m members ih =>
    obtain ⟨key, v⟩ := m
    obtain ⟨line, hline, rest, hrest, rfl⟩ := mapM_cons_eq_some_iff.1 hwrite
    obtain ⟨text, htext, rfl⟩ := Option.map_eq_some_iff.1 hline
    have hmem : (key, v) ∈ done ++ (key, v) :: members := by simp
    have hkey : IsKey key := hmembers.isKey _ hmem
    have hreads : ReadsBack maxDepth v := hmembers.readsBack _ hmem
    have hfree : key ∉ done.map Prod.fst := by
      have hkeys := hmembers.nodup_keys
      rw [List.map_append] at hkeys
      exact fun hmem => (List.nodup_append.1 hkeys).2.2 key hmem key (.head _) rfl
    -- the line is read into the table, and the others go on from the longer table
    have hstep : done ++ (key, v) :: members = (done ++ [(key, v)]) ++ members := by simp
    rw [hstep] at h hmembers
    have hnext := ih h hrest hmembers
    have hshape : (String.join ((key ++ " = " ++ text ++ "\n") :: rest)).toList ++ cs =
        key.toList ++ ' ' :: '=' :: ' ' :: (text.toList ++ '\n' :: ((String.join rest).toList ++ cs)) := by
      simp [String.join_cons]
    have hstatement := statement?_assignment hkey (hreads text htext) ((String.join rest).toList ++ cs)
    obtain ⟨c, tail, hcons, hc, -⟩ := hkey.exists_cons
    rw [hshape]
    rw [hcons] at hstatement ⊢
    exact hnext.statement hc hstatement (by simp; omega) (add_assignment v hname hfree)

/-- Tables under different names. -/
structure Sectioned (sections : List (String × List (String × Json))) : Prop where
  nodup_names : (sections.map Prod.fst).Nodup
  isKey_name : ∀ s ∈ sections, IsKey s.1
  tabular : ∀ s ∈ sections, Tabular s.2

variable {sections done todo : List (String × List (String × Json))}

theorem writeSection?_eq_some_iff {name : String} {members : List (String × Json)} {text : String} :
    writeSection? name members = some text ↔
      ∃ lines, members.mapM writeLine? = some lines ∧ "[" ++ name ++ "]\n" ++ String.join lines = text := by
  simp [writeSection?, Option.bind_eq_some_iff]

/-- A section is read after others. -/
theorem LeadsTo.section {s : String × List (String × Json)} {text : String} (current : List String)
    (h : LeadsTo ⟨itemsOf (done ++ [s]), [s.1]⟩ cs d') (hwrite : writeSection? s.1 s.2 = some text)
    (hsections : Sectioned (done ++ s :: todo)) : LeadsTo ⟨itemsOf done, current⟩ (text.toList ++ cs) d' := by
  have hs : s ∈ done ++ s :: todo := by simp
  have hfree : s.1 ∉ (itemsOf done).map Prod.fst := by
    have hnames := hsections.nodup_names
    rw [List.map_append] at hnames
    rw [map_fst_itemsOf]
    exact fun hmem => (List.nodup_append.1 hnames).2.2 _ hmem _ (.head _) rfl
  obtain ⟨lines, hlines, rfl⟩ := writeSection?_eq_some_iff.1 hwrite
  have hitems : itemsOf (done ++ [s]) = itemsOf done ++ [(s.1, .table false false (tableOf ([] ++ s.2)))] := by
    rw [itemsOf, itemsOf, List.map_append]
    rfl
  rw [hitems] at h
  have hnext := h.lines hlines hfree (hsections.tabular s hs)
  have hshape : ("[" ++ s.1 ++ "]\n" ++ String.join lines).toList ++ cs =
      '[' :: (s.1.toList ++ ']' :: '\n' :: ((String.join lines).toList ++ cs)) := by
    simp
  rw [hshape]
  refine hnext.statement (by decide) (statement?_header (hsections.isKey_name s hs) _) ?_ (add_header hfree)
  simp
  omega

theorem exists_leadsTo {texts : List String} (current : List String)
    (hwrite : todo.mapM (fun s => writeSection? s.1 s.2) = some texts) (h : Sectioned (done ++ todo)) :
    ∃ d', d'.items = itemsOf (done ++ todo) ∧
      LeadsTo ⟨itemsOf done, current⟩ ("\n".intercalate texts).toList d' := by
  induction todo generalizing done texts current with
  | nil =>
    cases hwrite
    exact ⟨_, by rw [List.append_nil], leadsTo_nil _⟩
  | cons s todo ih =>
    obtain ⟨text, htext, rest, hrest, rfl⟩ := mapM_cons_eq_some_iff.1 hwrite
    have hstep : done ++ s :: todo = (done ++ [s]) ++ todo := by simp
    obtain ⟨d', hd', hnext⟩ := ih [s.1] hrest (hstep ▸ h)
    refine ⟨d', by rw [hd', hstep], ?_⟩
    cases rest with
    | nil =>
      have hsection := LeadsTo.section current hnext htext h
      simpa using hsection
    | cons text' rest =>
      rw [String.intercalate_cons_cons, String.toList_append, String.toList_append, List.append_assoc]
      exact LeadsTo.section current hnext.blank htext h

/-- A document is read whole unless it starts with a mark for the order of bytes. -/
theorem parse?_of_leadsTo {text : String} (h : LeadsTo .empty text.toList d')
    (hmark : text.toList.head? ≠ some byteOrderMark) : parse? text = some d'.toJson := by
  rw [parse?]
  generalize text.toList = cs at h hmark
  cases cs with
  | nil => exact congrArg (Option.map Document.toJson) (h 1 Nat.one_pos)
  | cons c cs =>
    have hc : c ≠ byteOrderMark := fun heq => hmark (congrArg some heq)
    simp only [if_neg hc]
    exact congrArg (Option.map Document.toJson) (h _ (Nat.lt_succ_self _))

theorem head?_writeSection? {s : String × List (String × Json)} {text : String}
    (h : writeSection? s.1 s.2 = some text) : text.toList.head? = some '[' := by
  obtain ⟨lines, -, rfl⟩ := writeSection?_eq_some_iff.1 h
  simp

/-- Sections are read as they were written. -/
theorem parse?_writeSections? {text : String} (hwrite : writeSections? sections = some text) (h : Sectioned sections) :
    parse? text = some (.obj (sections.map fun s => (s.1, .obj s.2))) := by
  obtain ⟨texts, htexts, rfl⟩ : ∃ texts, sections.mapM (fun s => writeSection? s.1 s.2) = some texts ∧
      "\n".intercalate texts = text := by
    simpa [writeSections?, Option.bind_eq_some_iff] using hwrite
  obtain ⟨d', hitems, hleads⟩ := exists_leadsTo [] htexts (show Sectioned ([] ++ sections) from h)
  rw [parse?_of_leadsTo hleads ?_, Document.toJson, hitems, List.nil_append, itemsToJson_itemsOf]
  cases sections with
  | nil =>
    cases htexts
    exact nofun
  | cons s sections =>
    obtain ⟨first, hfirst, rest, -, rfl⟩ := mapM_cons_eq_some_iff.1 htexts
    have hhead := head?_writeSection? hfirst
    have hstart : ("\n".intercalate (first :: rest)).toList.head? = some '[' := by
      cases rest with
      | nil => simpa using hhead
      | cons => simp [String.intercalate_cons_cons, hhead]
    rw [hstart]
    decide

theorem isSome_bind_pure {α β : Type} (o : Option α) (g : α → β) : (o >>= fun a => pure (g a)).isSome = o.isSome := by
  cases o <;> rfl

/-- Sections have a text if all values in them do. -/
theorem isSome_writeSections? : (writeSections? sections).isSome = true ↔
    ∀ s ∈ sections, ∀ m ∈ s.2, (write? m.2).isSome = true := by
  rw [writeSections?, isSome_bind_pure, isSome_mapM]
  refine forall₂_congr fun s _ => ?_
  rw [writeSection?, isSome_bind_pure, isSome_mapM]
  refine forall₂_congr fun m _ => ?_
  rw [writeLine?, Option.isSome_map]

end EchoEngine.Toml
