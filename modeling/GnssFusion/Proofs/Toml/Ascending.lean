import GnssFusion.Toml.Document
import Mathlib

/-!
The order of keys. Whatever the order in which a document writes its entries, each table
that comes of it, however deep, has its keys in ascending order and each of them once
(`Table.ascending_of_parse?`).
-/

namespace GnssFusion.Toml

mutual

/-- The keys of the table, if it is one, and of all tables below it are in ascending order. -/
def Value.Ascending : Value → Prop
  | .table entries => Table.Ascending entries
  | _ => True

def Table.Ascending : List (String × Value) → Prop
  | [] => True
  | (key, value) :: rest =>
      (∀ entry ∈ rest, key < entry.1) ∧ value.Ascending ∧ Table.Ascending rest

end

theorem eq_or_mem_of_mem_insertSorted {α : Type} {key : String} {value : α}
    {entries : List (String × α)} {entry : String × α}
    (h : entry ∈ insertSorted key value entries) : entry = (key, value) ∨ entry ∈ entries := by
  induction entries with
  | nil => exact .inl (List.mem_singleton.mp h)
  | cons first rest ih =>
      rw [insertSorted] at h
      split at h
      · exact List.mem_cons.mp h
      · split at h
        · obtain h | h := List.mem_cons.mp h
          · exact .inl h
          · exact .inr (List.mem_cons_of_mem _ h)
        · obtain rfl | h := List.mem_cons.mp h
          · exact .inr List.mem_cons_self
          · exact (ih h).imp_right (List.mem_cons_of_mem _)

theorem Table.Ascending.insertSorted {key : String} {value : Value} {table : Table}
    (hvalue : value.Ascending) (h : Table.Ascending table) :
    Table.Ascending (insertSorted key value table) := by
  induction table with
  | nil => exact ⟨List.forall_mem_nil _, hvalue, trivial⟩
  | cons first rest ih =>
      obtain ⟨hbelow, hfirst, hrest⟩ := h
      rw [Toml.insertSorted]
      split
      · next hless =>
          refine ⟨List.forall_mem_cons.mpr ⟨hless, fun entry hentry => ?_⟩, hvalue, hbelow,
            hfirst, hrest⟩
          exact hless.trans (hbelow entry hentry)
      · next hless =>
          split
          · next hkey =>
              subst hkey
              exact ⟨hbelow, hvalue, hrest⟩
          · next hkey =>
              refine ⟨fun entry hentry => ?_, hfirst, ih hrest⟩
              obtain rfl | hentry := eq_or_mem_of_mem_insertSorted hentry
              · exact lt_of_le_of_ne (not_lt.mp hless) (Ne.symm hkey)
              · exact hbelow entry hentry

mutual

theorem Value.ascending_of_settle : (written : Value) → {value : Value} →
    written.settle = some value → value.Ascending
  | .table entries, value, h => by
      rw [Value.settle] at h
      split at h
      · obtain ⟨table, htable, h⟩ := Option.bind_eq_some_iff.mp h
        cases h
        exact Table.ascending_of_settle entries htable
      · obtain ⟨date, -, h⟩ := Option.bind_eq_some_iff.mp h
        cases h
        trivial
      · cases h
  | .array items, value, h => by
      rw [Value.settle] at h
      obtain ⟨settled, -, h⟩ := Option.bind_eq_some_iff.mp h
      cases h
      trivial
  | .string _, _, h | .integer _, _, h | .float _, _, h | .boolean _, _, h
  | .dateTime _, _, h => by
      cases h
      trivial

theorem Table.ascending_of_settle : (written : List (String × Value)) → {table : Table} →
    Table.settle written = some table → Table.Ascending table
  | [], table, h => by
      cases h
      trivial
  | (key, value) :: rest, table, h => by
      rw [Table.settle] at h
      obtain ⟨settled, hsettled, h⟩ := Option.bind_eq_some_iff.mp h
      obtain ⟨others, hothers, h⟩ := Option.bind_eq_some_iff.mp h
      cases h
      exact .insertSorted (Value.ascending_of_settle value hsettled)
        (Table.ascending_of_settle rest hothers)

end

/-- The tables of a document are in order. -/
theorem Table.ascending_of_parse? {text : String} {table : Table}
    (h : Table.parse? text = some table) : Table.Ascending table := by
  obtain ⟨statements, -, h⟩ := Option.bind_eq_some_iff.mp h
  obtain ⟨own, -, h⟩ := Option.bind_eq_some_iff.mp h
  obtain ⟨entries, -, h⟩ := Option.bind_eq_some_iff.mp h
  exact Table.ascending_of_settle _ h

end GnssFusion.Toml
