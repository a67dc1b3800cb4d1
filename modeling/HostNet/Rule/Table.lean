/-
The tables of the packet filter, in their order, and one value for each of them.
-/

import HostNet.Error

namespace HostNet

/-- A table of the packet filter. -/
inductive Table where
  | filter
  | nat
  | mangle
  | raw
  deriving DecidableEq, Repr

namespace Table

/-- All tables in their order. -/
def all : List Table := [filter, nat, mangle, raw]

/-- The name of a table. -/
def name : Table → String
  | filter => "filter"
  | nat => "nat"
  | mangle => "mangle"
  | raw => "raw"

/-- The table of a given name. -/
def ofName? : String → Option Table
  | "filter" => some filter
  | "nat" => some nat
  | "mangle" => some mangle
  | "raw" => some raw
  | _ => none

/-- The table of a given name, or an error that tells the name. -/
def ofName (s : String) : Except Error Table :=
  match ofName? s with
  | some t => .ok t
  | none => .error (.validation "table" ("unknown netfilter table '" ++ s ++ "'"))

theorem ofName?_name (t : Table) : ofName? t.name = some t := by cases t <;> rfl

end Table

/-- One value for each table. -/
structure PerTable (α : Type) where
  filter : α
  nat : α
  mangle : α
  raw : α
  deriving DecidableEq, Repr

namespace PerTable

variable {α : Type}

/-- The same value for every table. -/
def const (a : α) : PerTable α := ⟨a, a, a, a⟩

/-- The value of a table. -/
def get (p : PerTable α) : Table → α
  | .filter => p.filter
  | .nat => p.nat
  | .mangle => p.mangle
  | .raw => p.raw

/-- Gives a table another value. -/
def set (p : PerTable α) (t : Table) (a : α) : PerTable α :=
  match t with
  | .filter => { p with filter := a }
  | .nat => { p with nat := a }
  | .mangle => { p with mangle := a }
  | .raw => { p with raw := a }

/-- Changes every value by a function. -/
def map {β : Type} (f : α → β) (p : PerTable α) : PerTable β :=
  ⟨f p.filter, f p.nat, f p.mangle, f p.raw⟩

/-- The tables with their values, in order. -/
def toList (p : PerTable α) : List (Table × α) := Table.all.map fun t => (t, p.get t)

@[simp] theorem get_const (a : α) (t : Table) : (const a).get t = a := by cases t <;> rfl

@[simp] theorem get_set (p : PerTable α) (t u : Table) (a : α) :
    (p.set t a).get u = if u = t then a else p.get u := by
  cases t <;> cases u <;> rfl

@[simp] theorem get_map {β : Type} (f : α → β) (p : PerTable α) (t : Table) :
    (p.map f).get t = f (p.get t) := by cases t <;> rfl

/-- Values for the tables are equal if they are at every table. -/
theorem ext_get {p q : PerTable α} (h : ∀ t, p.get t = q.get t) : p = q := by
  obtain ⟨a, b, c, d⟩ := p
  obtain ⟨a', b', c', d'⟩ := q
  have hf : a = a' := h .filter
  have hn : b = b' := h .nat
  have hm : c = c' := h .mangle
  have hr : d = d' := h .raw
  rw [hf, hn, hm, hr]

end PerTable

end HostNet
