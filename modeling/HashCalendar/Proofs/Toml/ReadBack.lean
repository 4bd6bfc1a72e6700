/-
**Written files are read back.**

The header of a section opens a new table at the end of the root, as no other section has its name.
Until the next header, pairs go to the end of that last table, as no key stands twice under one
header.  So the tables come about in the order of the sections, and their members in the order of
the entries.

Main definitions:

* `HashCalendar.Toml.Section.node` — the table of a section while a file is read;
* `HashCalendar.Toml.Section.table` — the finished table of a section.

Main results:

* `HashCalendar.Toml.Draft.foldlM_lines` — what the lines of a section do;
* `HashCalendar.Toml.build?_lines` — what the lines of all sections build;
* `HashCalendar.Toml.read?_write?` — **a written file denotes the tables of its sections**.
-/

import HashCalendar.Proofs.Toml.Lines

set_option relaxedAutoImplicit false
set_option autoImplicit false

namespace HashCalendar.Toml

/-! ### Changes at the end -/

namespace Node

/-- What stands under a new key is put at the end. -/
theorem alter_of_not_mem {change : Option Node → Option Node} {key : String}
    {members : List (String × Node)} (h : key ∉ members.map Prod.fst) :
    alter change key members = (change none).map fun n => members ++ [(key, n)] := by
  induction members with
  | nil => rfl
  | cons m members ih =>
      rw [List.map_cons, List.mem_cons, not_or] at h
      rw [alter, if_neg (Ne.symm h.1), ih h.2, Option.map_map]
      rfl

/-- A key that stands at the end only is changed there. -/
theorem alter_append {change : Option Node → Option Node} {key : String}
    {members : List (String × Node)} (h : key ∉ members.map Prod.fst) (n : Node) :
    alter change key (members ++ [(key, n)]) =
      (change (some n)).map fun n => members ++ [(key, n)] := by
  induction members with
  | nil => exact if_pos rfl
  | cons m members ih =>
      rw [List.map_cons, List.mem_cons, not_or] at h
      rw [List.cons_append, alter, if_neg (Ne.symm h.1), ih h.2, Option.map_map]
      rfl

/-- The header of a new table puts it at the end. -/
theorem openTable_new {name : String} {root : List (String × Node)}
    (h : name ∉ root.map Prod.fst) :
    openTable [] name root = some (root ++ [(name, .table .header [])]) := by
  rw [openTable, alterAt, alter_of_not_mem h]
  rfl

/-- The table at the end is changed while it is open. -/
theorem alterOpen_last {name : String} {root : List (String × Node)}
    (h : name ∉ root.map Prod.fst) (change : List (String × Node) → Option (List (String × Node)))
    (members : List (String × Node)) :
    alterOpen [name] change (root ++ [(name, .table .header members)]) =
      (change members).map fun members => root ++ [(name, .table .header members)] := by
  rw [alterOpen, alterAt, alter_append h]
  simp [alterAt, Option.map_map, Function.comp_def]

/-- A pair with a new key is put at the end. -/
theorem insertPair_new {key : String} {members : List (String × Node)}
    (h : key ∉ members.map Prod.fst) (v : Toml) :
    insertPair [] key v members = some (members ++ [(key, .value v)]) := by
  rw [insertPair, alterAt, if_neg (by decide), addValue, alter_of_not_mem h]
  rfl

end Node

/-! ### The lines of sections -/

/-- The members of a section while a file is read. -/
def Section.nodes (entries : List (String × Entry)) : List (String × Node) :=
  entries.map fun e => (e.1, .value e.2.value)

/-- The table of a section while a file is read. -/
def Section.node (s : Section) : String × Node := (s.name, .table .header (nodes s.entries))

/-- The finished table of a section. -/
def Section.table (s : Section) : String × Toml :=
  (s.name, .table (s.entries.map fun e => (e.1, e.2.value)))

@[simp] theorem Section.map_fst_nodes (entries : List (String × Entry)) :
    (nodes entries).map Prod.fst = entries.map Prod.fst := by
  rw [nodes, List.map_map]
  rfl

namespace Draft

/-- The header of a section with a new name puts its table at the end. -/
theorem add_header {name : String} {root : List (String × Node)} (h : name ∉ root.map Prod.fst)
    (path : List String) :
    add ⟨root, path⟩ (.table [] name) = some ⟨root ++ [(name, .table .header [])], [name]⟩ := by
  rw [add]
  dsimp only
  rw [Node.openTable_new h]
  rfl

/-- A pair with a new key goes to the end of the table at the end. -/
theorem add_pair {name : String} {root : List (String × Node)} (hname : name ∉ root.map Prod.fst)
    {key : String} {members : List (String × Node)} (hkey : key ∉ members.map Prod.fst) (v : Toml) :
    add ⟨root ++ [(name, .table .header members)], [name]⟩ (.pair [] key v) =
      some ⟨root ++ [(name, .table .header (members ++ [(key, .value v)]))], [name]⟩ := by
  rw [add]
  dsimp only
  rw [Node.alterOpen_last hname, Node.insertPair_new hkey]
  rfl

/-- The pairs of a section go to the end of the table at the end. -/
theorem foldlM_pairs {name : String} {root : List (String × Node)}
    (hname : name ∉ root.map Prod.fst) {before after : List (String × Entry)}
    (h : ((before ++ after).map Prod.fst).Nodup) :
    (after.map fun e => Line.pair [] e.1 e.2.value).foldlM add
        ⟨root ++ [(name, .table .header (Section.nodes before))], [name]⟩ =
      some ⟨root ++ [(name, .table .header (Section.nodes (before ++ after)))], [name]⟩ := by
  induction after generalizing before with
  | nil => rw [List.append_nil]; rfl
  | cons e after ih =>
      have hkey : e.1 ∉ (Section.nodes before).map Prod.fst := by
        rw [List.map_append, List.map_cons, List.nodup_append] at h
        rw [Section.map_fst_nodes]
        exact fun he => h.2.2 e.1 he e.1 List.mem_cons_self rfl
      have hnext : Section.nodes before ++ [(e.1, .value e.2.value)] =
          Section.nodes (before ++ [e]) := by
        rw [Section.nodes, Section.nodes, List.map_append]
        rfl
      rw [List.append_cons before e after] at h ⊢
      rw [List.map_cons, List.foldlM_cons, add_pair hname hkey, hnext]
      exact ih h

/-- The lines of a section with a new name put its table at the end. -/
theorem foldlM_lines {s : Section} (hlegible : s.Legible) {root : List (String × Node)}
    (hname : s.name ∉ root.map Prod.fst) (path : List String) :
    s.lines.foldlM add ⟨root, path⟩ = some ⟨root ++ [s.node], [s.name]⟩ := by
  rw [Section.lines, List.foldlM_cons, add_header hname]
  have hnodup : (([] ++ s.entries).map Prod.fst).Nodup := hlegible.nodup
  exact foldlM_pairs hname hnodup

/-- The lines of sections put their tables at the end. -/
theorem foldlM_sections {sections : List Section} (hlegible : ∀ s ∈ sections, s.Legible)
    {root : List (String × Node)} (h : (root.map Prod.fst ++ sections.map Section.name).Nodup)
    (path : List String) :
    ∃ last, (sections.flatMap Section.lines).foldlM add ⟨root, path⟩ =
      some ⟨root ++ sections.map Section.node, last⟩ := by
  induction sections generalizing root path with
  | nil => exact ⟨path, by rw [List.map_nil, List.append_nil]; rfl⟩
  | cons s sections ih =>
      rw [List.forall_mem_cons] at hlegible
      rw [List.map_cons] at h
      have hname : s.name ∉ root.map Prod.fst := by
        rw [List.nodup_append] at h
        exact fun he => h.2.2 s.name he s.name List.mem_cons_self rfl
      have hnames : ((root ++ [s.node]).map Prod.fst ++ sections.map Section.name).Nodup := by
        rwa [List.map_append, List.append_assoc]
      obtain ⟨last, hrest⟩ := ih hlegible.2 hnames [s.name]
      refine ⟨last, ?_⟩
      rw [List.flatMap_cons, List.foldlM_append, foldlM_lines hlegible.1 hname, List.map_cons,
        List.append_cons root s.node (sections.map Section.node)]
      exact hrest

end Draft

/-! ### Files -/

theorem Section.values_nodes (entries : List (String × Entry)) :
    Node.values (nodes entries) = entries.map fun e => (e.1, e.2.value) := by
  induction entries with
  | nil => rfl
  | cons e entries ih => exact congrArg ((e.1, e.2.value) :: ·) ih

theorem Section.values_node (sections : List Section) :
    Node.values (sections.map node) = sections.map table := by
  induction sections with
  | nil => rfl
  | cons s sections ih =>
      rw [List.map_cons, node, Node.values, Node.finish, values_nodes, ih]
      rfl

/-- What the lines of sections build. -/
theorem build?_lines {sections : List Section} (hlegible : ∀ s ∈ sections, s.Legible)
    (hnames : (sections.map Section.name).Nodup) :
    build? (sections.flatMap Section.lines) = some (sections.map Section.table) := by
  have hnew : (([] : List (String × Node)).map Prod.fst ++ sections.map Section.name).Nodup :=
    hnames
  obtain ⟨path, hfold⟩ := Draft.foldlM_sections hlegible hnew []
  rw [build?, hfold, Option.map_some, List.nil_append, Section.values_node]

/-- Sections are written exactly if all of their numbers fit 64 bits with sign. -/
theorem isSome_write? (sections : List Section) :
    (write? sections).isSome = sections.all fun s => s.entries.all fun e => e.2.fits := by
  rw [write?]
  split
  · next h => exact h.symm
  · next h => exact (Bool.eq_false_iff.2 h).symm

/-- **A written file denotes the tables of its sections.** -/
theorem read?_write? {sections : List Section} (hlegible : ∀ s ∈ sections, s.Legible)
    (hnames : (sections.map Section.name).Nodup) {text : String}
    (h : write? sections = some text) :
    read? text.toList = some (sections.map Section.table) := by
  rw [write?] at h
  split at h
  · next hfits =>
      simp only [List.all_eq_true] at hfits
      obtain rfl := Option.some.inj h
      rw [read?, String.toList_ofList, lines?_intercalate hlegible hfits, Option.bind_some,
        build?_lines hlegible hnames]
  · cases h

end HashCalendar.Toml
