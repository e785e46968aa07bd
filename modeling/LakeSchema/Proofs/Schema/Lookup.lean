import LakeSchema.Schema.Project
import Mathlib.Data.List.Nodup

/-!
# Finding and changing entities

Entities are found by their identifier, the first of several counting. Under distinct identifiers
the first match is the only one (`find?_of_mem`), and changing or erasing the first match is a map
or a filter. `Keyed` says so of the tables of a project and of their fields, and
`field?_eq_some_iff` reads a look-up as membership.
-/

namespace LakeSchema

section Keys

variable {α κ : Type} {key : α → κ} {items : List α}

/-- What is found stays found when items are added behind. -/
theorem find?_append_of_some {has : α → Bool} {x : α} (found : items.find? has = some x)
    (others : List α) : (items ++ others).find? has = some x := by
  rw [List.find?_append, found, Option.some_or]

/-- What was not there is found once it is added. -/
theorem find?_append_of_none {has : α → Bool} {x : α} (absent : items.find? has = none)
    (found : has x = true) : (items ++ [x]).find? has = some x := by
  rw [List.find?_append, absent, Option.none_or, List.find?_cons_of_pos found]

/-- Under distinct keys an item has one place. -/
theorem getElem?_inj_of_nodup {i j : Nat} {x y : α} (distinct : (items.map key).Nodup)
    (here : items[i]? = some x) (there : items[j]? = some y) (same : key x = key y) : i = j := by
  refine (List.getElem?_inj ?_ distinct).mp ?_
  · rw [List.length_map]
    exact (List.getElem?_eq_some_iff.mp here).1
  · rw [List.getElem?_map, List.getElem?_map, here, there, Option.map_some, Option.map_some, same]

section Distinct

variable [BEq κ] [LawfulBEq κ]

theorem find?_of_mem {x : α} (distinct : (items.map key).Nodup) (member : x ∈ items) :
    items.find? (fun y => key y == key x) = some x := by
  cases found : items.find? (fun y => key y == key x) with
  | none =>
    have absent := List.find?_eq_none.mp found x member
    simp at absent
  | some y =>
    have same : key y = key x := by simpa using List.find?_some found
    have present := List.mem_of_find?_eq_some found
    rw [List.inj_on_of_nodup_map distinct present member same]

theorem find?_eq_some_iff_mem {k : κ} {x : α} (distinct : (items.map key).Nodup) :
    items.find? (fun y => key y == k) = some x ↔ x ∈ items ∧ key x = k := by
  constructor
  · intro found
    exact ⟨List.mem_of_find?_eq_some found, by simpa using List.find?_some found⟩
  · rintro ⟨member, rfl⟩
    exact find?_of_mem distinct member

/-- Under distinct keys the place of an item does not matter to a look-up. -/
theorem find?_perm {others : List α} (perm : items.Perm others) (distinct : (items.map key).Nodup)
    (k : κ) : items.find? (fun x => key x == k) = others.find? (fun x => key x == k) := by
  have kept : (others.map key).Nodup := (perm.map key).nodup_iff.mp distinct
  ext x
  rw [find?_eq_some_iff_mem distinct, find?_eq_some_iff_mem kept, perm.mem_iff]

theorem find?_isSome_iff_mem {k : κ} :
    (items.find? fun y => key y == k).isSome ↔ ∃ x ∈ items, key x = k := by
  simp

theorem eraseP_eq_filter (distinct : (items.map key).Nodup) (k : κ) :
    items.eraseP (fun x => key x == k) = items.filter fun x => key x != k := by
  induction items with
  | nil => rfl
  | cons x rest ih =>
    rw [List.map_cons, List.nodup_cons] at distinct
    by_cases here : key x = k
    · have others : ∀ y ∈ rest, (key y != k) = true := by
        intro y member
        have apart : key y ≠ k := fun same =>
          distinct.1 (here.trans same.symm ▸ List.mem_map_of_mem member)
        simpa using apart
      simp [here, List.filter_eq_self.mpr others]
    · simp [here, ih distinct.2]

end Distinct

namespace Project

theorem updateFirst_map_key {has : α → Bool} {change : α → α} (keeps : ∀ x, key (change x) = key x) :
    (updateFirst has change items).map key = items.map key := by
  induction items with
  | nil => rfl
  | cons x rest ih =>
    rw [updateFirst]
    split
    · simp [keeps]
    · simp [ih]

theorem mem_updateFirst {has : α → Bool} {change : α → α} {x : α}
    (member : x ∈ updateFirst has change items) :
    x ∈ items ∨ ∃ y ∈ items, has y = true ∧ x = change y := by
  induction items with
  | nil => simp [updateFirst] at member
  | cons first rest ih =>
    rw [updateFirst] at member
    split at member
    · rcases List.mem_cons.mp member with rfl | later
      · exact .inr ⟨first, by simp, ‹_›, rfl⟩
      · exact .inl (List.mem_cons_of_mem _ later)
    · rcases List.mem_cons.mp member with rfl | later
      · exact .inl (by simp)
      · rcases ih later with old | ⟨y, present, matched, same⟩
        · exact .inl (List.mem_cons_of_mem _ old)
        · exact .inr ⟨y, List.mem_cons_of_mem _ present, matched, same⟩

theorem mem_updateFirst_of_neg {has : α → Bool} {change : α → α} {x : α} (member : x ∈ items)
    (other : has x = false) : x ∈ updateFirst has change items := by
  induction items with
  | nil => exact member
  | cons first rest ih =>
    rw [updateFirst]
    rcases List.mem_cons.mp member with rfl | later
    · rw [if_neg (by simp [other])]
      exact List.mem_cons_self
    · split
      · exact List.mem_cons_of_mem _ later
      · exact List.mem_cons_of_mem _ (ih later)

theorem map_updateFirst {β : Type} {has : α → Bool} {other : β → Bool} {change : α → α}
    {changed : β → β} (g : α → β) (matched : ∀ x, other (g x) = has x)
    (commutes : ∀ x, g (change x) = changed (g x)) :
    (updateFirst has change items).map g = updateFirst other changed (items.map g) := by
  induction items with
  | nil => rfl
  | cons x rest ih =>
    rw [List.map_cons, updateFirst, updateFirst, matched]
    split
    · rw [List.map_cons, commutes]
    · rw [List.map_cons, ih]

theorem filter_updateFirst [BEq κ] [LawfulBEq κ] (key : α → κ) {change : α → α}
    (keeps : ∀ x, key (change x) = key x) (k : κ) :
    (updateFirst (fun x => key x == k) change items).filter (fun x => key x != k) =
      items.filter fun x => key x != k := by
  induction items with
  | nil => rfl
  | cons x rest ih =>
    rw [updateFirst]
    by_cases here : key x = k
    · simp [here, keeps]
    · simp [here, ih]

theorem find?_updateFirst [DecidableEq κ] (key : α → κ) {change : α → α}
    (keeps : ∀ x, key (change x) = key x) (k other : κ) :
    (updateFirst (fun x => key x == k) change items).find? (fun x => key x == other) =
      if other = k then (items.find? fun x => key x == other).map change
      else items.find? fun x => key x == other := by
  induction items with
  | nil => simp [updateFirst]
  | cons x rest ih =>
    rw [updateFirst]
    by_cases here : key x = k
    · by_cases same : other = k
      · simp [here, keeps, same]
      · have apart : key x ≠ other := fun equal => same (equal.symm.trans here)
        simp [here, keeps, same, Ne.symm same]
    · by_cases found : key x = other
      · have apart : other ≠ k := fun equal => here (found.trans equal)
        simp [found, apart]
      · simp [here, found, ih]

theorem find?_updateFirst_of_some {has : α → Bool} {change : α → α} {x : α}
    (found : items.find? has = some x) (still : has (change x) = true) :
    (updateFirst has change items).find? has = some (change x) := by
  induction items with
  | nil => simp at found
  | cons y rest ih =>
    rw [updateFirst]
    by_cases here : has y
    · rw [List.find?_cons_of_pos here, Option.some_inj] at found
      rw [if_pos here, found, List.find?_cons_of_pos still]
    · rw [List.find?_cons_of_neg here] at found
      rw [if_neg here, List.find?_cons_of_neg here, ih found]

theorem updateFirst_eq_self {has : α → Bool} {change : α → α}
    (fixed : ∀ x, items.find? has = some x → change x = x) : updateFirst has change items = items := by
  induction items with
  | nil => rfl
  | cons x rest ih =>
    rw [updateFirst]
    by_cases here : has x
    · rw [if_pos here, fixed x (List.find?_cons_of_pos here)]
    · rw [if_neg here, ih fun y found => fixed y (by rwa [List.find?_cons_of_neg here])]

theorem updateFirst_updateFirst (has : α → Bool) {x : α} (still : has x = true) (change : α → α) :
    updateFirst has change (updateFirst has (fun _ => x) items) =
      updateFirst has (fun _ => change x) items := by
  induction items with
  | nil => rfl
  | cons y rest ih =>
    rw [updateFirst, updateFirst]
    split
    · rw [updateFirst, if_pos still]
    · rename_i other
      rw [updateFirst, if_neg other, ih]

theorem updateFirst_congr {has : α → Bool} {x : α} {change other : α → α}
    (found : items.find? has = some x) (same : change x = other x) :
    updateFirst has change items = updateFirst has other items := by
  induction items with
  | nil => rfl
  | cons y rest ih =>
    rw [updateFirst, updateFirst]
    by_cases here : has y
    · rw [List.find?_cons_of_pos here, Option.some_inj] at found
      rw [if_pos here, if_pos here, found, same]
    · rw [List.find?_cons_of_neg here] at found
      rw [if_neg here, if_neg here, ih found]

theorem updateFirst_eq_map [DecidableEq κ] (distinct : (items.map key).Nodup) (k : κ)
    (change : α → α) :
    updateFirst (fun x => key x == k) change items =
      items.map fun x => if key x = k then change x else x := by
  induction items with
  | nil => rfl
  | cons x rest ih =>
    rw [List.map_cons, List.nodup_cons] at distinct
    rw [updateFirst, List.map_cons]
    by_cases here : key x = k
    · have others : (rest.map fun y => if key y = k then change y else y) = rest := by
        refine (List.map_congr_left fun y member => if_neg fun same => ?_).trans (List.map_id' rest)
        exact distinct.1 (here.trans same.symm ▸ List.mem_map_of_mem member)
      rw [if_pos (by simpa using here), if_pos here, others]
    · rw [if_neg (by simpa using here), if_neg here, ih distinct.2]

theorem updateFirst_append_cons {has : α → Bool} {x : α} {before : List α}
    (absent : ∀ y ∈ before, has y = false) (matched : has x = true) (change : α → α)
    (after : List α) :
    updateFirst has change (before ++ x :: after) = before ++ change x :: after := by
  induction before with
  | nil => rw [List.nil_append, List.nil_append, updateFirst, if_pos matched]
  | cons y rest ih =>
    rw [List.forall_mem_cons] at absent
    rw [List.cons_append, updateFirst, if_neg (by simp [absent.1]), ih absent.2, List.cons_append]

theorem updateFirst_eq_append {has : α → Bool} {x : α} (found : items.find? has = some x)
    (change : α → α) :
    ∃ before after, items = before ++ x :: after ∧
      updateFirst has change items = before ++ change x :: after := by
  induction items with
  | nil => simp at found
  | cons y rest ih =>
    rw [updateFirst]
    by_cases here : has y
    · rw [List.find?_cons_of_pos here, Option.some_inj] at found
      exact ⟨[], rest, by rw [found]; rfl, by rw [if_pos here, found]; rfl⟩
    · rw [List.find?_cons_of_neg here] at found
      obtain ⟨before, after, split, changed⟩ := ih found
      exact ⟨y :: before, after, by rw [split]; rfl, by rw [if_neg here, changed]; rfl⟩

end Project
end Keys

namespace Project

variable {p : Project} {l : Location} {f : Field}

/-- The identifiers of tables are distinct, and those of the fields within each table. -/
structure Keyed (p : Project) : Prop where
  tables : (p.tables.map (·.id)).Nodup
  fields : ∀ t ∈ p.tables, (t.fields.map (·.id)).Nodup

/-- A field exists at a location. -/
def Has (p : Project) (l : Location) : Prop :=
  ∃ t ∈ p.tables, t.id = l.table ∧ ∃ f ∈ t.fields, f.id = l.field

theorem field?_eq_some_iff (keyed : p.Keyed) :
    p.field? l = some f ↔ ∃ t ∈ p.tables, t.id = l.table ∧ f ∈ t.fields ∧ f.id = l.field := by
  simp only [field?, table?, Option.bind_eq_some_iff, find?_eq_some_iff_mem keyed.tables]
  constructor
  · rintro ⟨t, ⟨member, same⟩, found⟩
    rw [Table.field?, find?_eq_some_iff_mem (keyed.fields t member)] at found
    exact ⟨t, member, same, found⟩
  · rintro ⟨t, member, same, found⟩
    refine ⟨t, ⟨member, same⟩, ?_⟩
    rw [Table.field?, find?_eq_some_iff_mem (keyed.fields t member)]
    exact found

theorem has_iff_field? (keyed : p.Keyed) : p.Has l ↔ (p.field? l).isSome := by
  simp only [Option.isSome_iff_exists, field?_eq_some_iff keyed]
  constructor
  · rintro ⟨t, member, same, f, present, named⟩
    exact ⟨f, t, member, same, present, named⟩
  · rintro ⟨f, t, member, same, present, named⟩
    exact ⟨t, member, same, f, present, named⟩

theorem field?_of_mem (keyed : p.Keyed) {t : Table} (member : t ∈ p.tables) (present : f ∈ t.fields) :
    p.field? ⟨t.id, f.id⟩ = some f :=
  (field?_eq_some_iff keyed).mpr ⟨t, member, rfl, present, rfl⟩

theorem Has.of_field? (found : p.field? l = some f) : p.Has l := by
  obtain ⟨t, located, present⟩ := Option.bind_eq_some_iff.mp found
  have table := List.find?_some located
  have field := List.find?_some present
  exact ⟨t, List.mem_of_find?_eq_some located, by simpa using table, f,
    List.mem_of_find?_eq_some present, by simpa using field⟩

theorem table?_id {t : Table} {id : String} (found : p.table? id = some t) : t.id = id := by
  simpa using List.find?_some found

theorem field?_of_table? {t : Table} {id : String} (located : p.table? id = some t)
    (inside : l.table = id) : p.field? l = t.field? l.field := by
  rw [field?, inside, located]
  rfl

theorem field?_id (found : p.field? l = some f) : f.id = l.field := by
  obtain ⟨t, _, present⟩ := Option.bind_eq_some_iff.mp found
  simpa using List.find?_some present

theorem field?_of_tables {q : Project} (same : q.tables = p.tables) (l : Location) : q.field? l = p.field? l := by
  rw [field?, field?, table?, table?, same]

theorem field?_joinTables {q : Project} {others : List Table} (found : p.field? l = some f)
    (joined : q.tables = p.tables ++ others) : q.field? l = some f := by
  obtain ⟨t, located, present⟩ := Option.bind_eq_some_iff.mp found
  have still : q.table? l.table = some t := by
    unfold table? at located ⊢
    exact joined ▸ find?_append_of_some located others
  rw [field?, still]
  exact present

/-- Tables that lose fields, or that are lost, leave the others keyed. -/
theorem Keyed.of_sublists {q : Project} (keyed : p.Keyed)
    (tables : (q.tables.map (·.id)).Sublist (p.tables.map (·.id)))
    (fields : ∀ t ∈ q.tables, ∃ u ∈ p.tables, (t.fields.map (·.id)).Sublist (u.fields.map (·.id))) :
    q.Keyed where
  tables := keyed.tables.sublist tables
  fields t member := by
    obtain ⟨u, present, sub⟩ := fields t member
    exact (keyed.fields u present).sublist sub

/-- A change of tables that comes down to a change of each field. -/
structure Fieldwise (g : Table → Table) (h : Location → Field → Field) : Prop where
  id : ∀ t, (g t).id = t.id
  fields : ∀ t, (g t).fields = t.fields.map fun f => h ⟨t.id, f.id⟩ f
  fieldId : ∀ l f, (h l f).id = f.id

section Fieldwise

variable {q : Project} {g : Table → Table} {h : Location → Field → Field}

theorem Fieldwise.table? (fieldwise : Fieldwise g h) (changed : q.tables = p.tables.map g)
    (id : String) : q.table? id = (p.table? id).map g := by
  have same : ((fun t : Table => t.id == id) ∘ g) = fun t => t.id == id := by
    funext t
    simp [fieldwise.id]
  rw [Project.table?, changed, List.find?_map, same, Project.table?]

theorem Fieldwise.field? (fieldwise : Fieldwise g h) (changed : q.tables = p.tables.map g)
    (l : Location) : q.field? l = (p.field? l).map (h l) := by
  rw [Project.field?, Project.field?, fieldwise.table? changed]
  cases located : p.table? l.table with
  | none => rfl
  | some t =>
    have table := table?_id located
    have same : ((fun f : Field => f.id == l.field) ∘ fun f => h ⟨t.id, f.id⟩ f) =
        fun f => f.id == l.field := by
      funext f
      simp [fieldwise.fieldId]
    simp only [Option.map_some, Option.bind_some, Table.field?, fieldwise.fields, List.find?_map,
      same]
    cases found : t.fields.find? (·.id == l.field) with
    | none => rfl
    | some f =>
      have field : f.id = l.field := by simpa using List.find?_some found
      simp [table, field]

theorem Fieldwise.map_id (fieldwise : Fieldwise g h) (tables : List Table) :
    (tables.map g).map (·.id) = tables.map (·.id) := by
  simp [fieldwise.id, Function.comp_def]

theorem Fieldwise.map_fieldId (fieldwise : Fieldwise g h) (t : Table) :
    (g t).fields.map (·.id) = t.fields.map (·.id) := by
  simp [fieldwise.fields, fieldwise.fieldId, Function.comp_def]

theorem Fieldwise.keyed_before (fieldwise : Fieldwise g h) (changed : q.tables = p.tables.map g)
    (keyed : q.Keyed) : p.Keyed where
  tables := by
    rw [← fieldwise.map_id, ← changed]
    exact keyed.tables
  fields t member := by
    rw [← fieldwise.map_fieldId]
    exact keyed.fields (g t) (changed ▸ List.mem_map_of_mem member)

theorem Fieldwise.keyed (fieldwise : Fieldwise g h) (changed : q.tables = p.tables.map g)
    (keyed : p.Keyed) : q.Keyed := by
  refine keyed.of_sublists ?_ fun t member => ?_
  · rw [changed, fieldwise.map_id]
  · rw [changed] at member
    obtain ⟨u, present, rfl⟩ := List.mem_map.mp member
    exact ⟨u, present, by rw [fieldwise.map_fieldId]⟩

end Fieldwise

/-! ### One table -/

variable {m : Location} {change : Table → Table}

theorem updateTable_congr {t : Table} {id : String} {other : Table → Table}
    (found : p.table? id = some t) (same : change t = other t) :
    p.updateTable id change = p.updateTable id other := by
  rw [updateTable, updateTable, updateFirst_congr found same]

theorem updateTable_updateTable {t : Table} {id : String} (named : t.id = id)
    (change : Table → Table) :
    (p.updateTable id fun _ => t).updateTable id change = p.updateTable id fun _ => change t :=
  congrArg (fun tables : List Table => { p with tables })
    (updateFirst_updateFirst (·.id == id) (beq_iff_eq.mpr named) change)

theorem table?_updateTable (keeps : ∀ t, (change t).id = t.id) (id other : String) :
    (p.updateTable id change).table? other =
      if other = id then (p.table? other).map change else p.table? other :=
  find?_updateFirst Table.id keeps id other

theorem field?_updateTable (keeps : ∀ t, (change t).id = t.id) (id : String) :
    (p.updateTable id change).field? m =
      if m.table = id then ((p.table? id).map change).bind (·.field? m.field) else p.field? m := by
  rw [field?, table?_updateTable keeps]
  split
  · rename_i same
    rw [same]
  · rfl

theorem field?_updateField {g : Field → Field} (keeps : ∀ t, (change t).id = t.id)
    (fields : ∀ t, (change t).fields = updateFirst (·.id == l.field) g t.fields)
    (fieldId : ∀ f, (g f).id = f.id) :
    (p.updateTable l.table change).field? m = if m = l then (p.field? m).map g else p.field? m := by
  rw [field?_updateTable keeps]
  obtain ⟨mt, mf⟩ := m
  obtain ⟨lt, lf⟩ := l
  by_cases table : mt = lt
  · subst table
    simp only [if_pos, Location.mk.injEq, true_and, field?]
    cases located : p.table? mt with
    | none => simp
    | some t => simp [Table.field?, fields, find?_updateFirst Field.id fieldId]
  · simp [table]

theorem field?_eraseTable {q : Project} {id : String} (keyed : p.Keyed)
    (erased : q.tables = p.tables.eraseP (·.id == id)) :
    q.field? m = if m.table = id then none else p.field? m := by
  have located : q.table? m.table = if m.table = id then none else p.table? m.table := by
    rw [table?, erased, eraseP_eq_filter keyed.tables, List.find?_filter]
    split
    · rename_i same
      simp [same]
    · rename_i apart
      congr 1
      funext t
      by_cases here : t.id = m.table <;> simp [here, apart]
  rw [field?, located]
  split <;> rfl

theorem updateTable_keyed (keyed : p.Keyed) (id : String) (keeps : ∀ t, (change t).id = t.id)
    (fields : ∀ t, ((change t).fields.map (·.id)).Sublist (t.fields.map (·.id))) :
    (p.updateTable id change).Keyed := by
  refine keyed.of_sublists ?_ fun t member => ?_
  · rw [updateTable, updateFirst_map_key keeps]
  · rcases mem_updateFirst member with old | ⟨u, present, _, rfl⟩
    · exact ⟨t, old, .refl _⟩
    · exact ⟨u, present, fields u⟩

/-! ### A table in place of another -/

section Replacement

variable {id : String} {t u : Table}

theorem mem_replaceTable (located : p.table? id = some t) (named : u.id = t.id) :
    u ∈ (p.updateTable id fun _ => u).tables :=
  List.mem_of_find?_eq_some
    (find?_updateFirst_of_some located (beq_iff_eq.mpr (named.trans (table?_id located))))

theorem field?_replaceTable (located : p.table? id = some t) (named : u.id = t.id) :
    (p.updateTable id fun _ => u).field? l =
      if l.table = id then u.field? l.field else p.field? l := by
  have same : (p.updateTable id fun _ => u) = p.updateTable id fun v => { u with id := v.id } :=
    updateTable_congr located (by rw [← named])
  rw [same, field?_updateTable (by intro v; rfl), located]
  rfl

theorem replaceTable_ids (located : p.table? id = some t) (named : u.id = t.id) :
    (p.updateTable id fun _ => u).tables.map (·.id) = p.tables.map (·.id) := by
  have same : (p.updateTable id fun _ => u) = p.updateTable id fun v => { u with id := v.id } :=
    updateTable_congr located (by rw [← named])
  rw [same, updateTable, updateFirst_map_key (by intro v; rfl)]

theorem replaceTable_keyed (keyed : p.Keyed) (located : p.table? id = some t) (named : u.id = t.id)
    (distinct : (u.fields.map (·.id)).Nodup) : (p.updateTable id fun _ => u).Keyed where
  tables := by
    rw [replaceTable_ids located named]
    exact keyed.tables
  fields v member := by
    rcases mem_updateFirst member with old | ⟨_, _, _, rfl⟩
    · exact keyed.fields v old
    · exact distinct

/-- No field is lost if the new table has the fields of the old one. -/
theorem Has.replaceTable (keyed : p.Keyed) (located : p.table? id = some t) (named : u.id = t.id)
    (keeps : ∀ f ∈ t.fields, ∃ g ∈ u.fields, g.id = f.id) (has : p.Has l) :
    (p.updateTable id fun _ => u).Has l := by
  obtain ⟨v, member, table, f, present, field⟩ := has
  by_cases here : v.id = id
  · obtain rfl : t = v :=
      Option.some.inj (located.symm.trans ((find?_eq_some_iff_mem keyed.tables).mpr ⟨member, here⟩))
    obtain ⟨g, inside, same⟩ := keeps f present
    exact ⟨u, mem_replaceTable located named, named.trans table, g, inside, same.trans field⟩
  · exact ⟨v, mem_updateFirst_of_neg member (by simpa using here), table, f, present, field⟩

end Replacement

end Project
end LakeSchema
