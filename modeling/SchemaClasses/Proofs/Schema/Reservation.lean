import Mathlib.Order.Bounds.Defs
import SchemaClasses.Proofs.Schema.OneClassEach

set_option autoImplicit false

namespace SchemaClasses.Schema

namespace ClassNames

variable {names : ClassNames} {base name result : Text} {next rounds : Nat}

/-- A taken name is replaced by the base with the next number, until one is free. The last number counts
the replacements. -/
inductive Search (names : ClassNames) (base : Text) : Text → Nat → Text → Nat → Prop where
  | free {name : Text} {next : Nat} (free : name ∉ names.taken) : Search names base name next name 0
  | taken {name result : Text} {next rounds : Nat} (taken : name ∈ names.taken)
      (later : Search names base (numbered base next) (next + 1) result rounds) :
      Search names base name next result (rounds + 1)

theorem Search.unique {other : Text} {others : Nat} (one : Search names base name next result rounds)
    (two : Search names base name next other others) : other = result ∧ others = rounds := by
  induction one generalizing others with
  | free free =>
    cases two with
    | free => exact ⟨rfl, rfl⟩
    | taken taken => exact absurd taken free
  | taken taken _ ih =>
    cases two with
    | free free => exact absurd taken free
    | taken _ later =>
      obtain ⟨rfl, rfl⟩ := ih later
      exact ⟨rfl, rfl⟩

theorem FirstFree.search {n : Nat} (first : FirstFree names base n) :
    ∀ m ≤ n, Search names base (candidate base m) (m + 2) (candidate base n) (n - m) := by
  intro m before
  induction left : n - m generalizing m with
  | zero =>
    obtain rfl : m = n := by omega
    exact .free first.free
  | succ left ih => exact .taken (first.before m (by omega)) (ih (m + 1) (by omega) (by omega))

theorem exists_search (names : ClassNames) (base : Text) :
    ∃ rounds ≤ names.reserved.length, Search names base base 2 (names.free base) rounds := by
  obtain ⟨n, bound, first, same⟩ := names.exists_firstFree base
  exact ⟨n, bound, same ▸ first.search 0 n.zero_le⟩

theorem isLeast_of_firstFree {n : Nat} (first : FirstFree names base (n + 1)) :
    IsLeast {k | 2 ≤ k ∧ numbered base k ∉ names.taken} (n + 2) := by
  refine ⟨⟨Nat.le_add_left 2 n, first.free⟩, ?_⟩
  rintro k ⟨least, free⟩
  by_contra less
  obtain ⟨m, rfl⟩ := Nat.exists_eq_add_of_le' least
  exact free (first.before (m + 1) (by omega))

structure Reservation (names : ClassNames) (base : Text) (node : Node) : Prop where
  terminates : ∃ rounds ≤ names.reserved.length, ∀ result others,
    Search names base base 2 result others ↔ result = names.free base ∧ others = rounds
  fresh : names.free base ∉ names.taken
  unnumbered : base ∉ names.taken → names.free base = base
  minimal : base ∈ names.taken → ∃ k,
    IsLeast {k | 2 ≤ k ∧ numbered base k ∉ names.taken} k ∧ names.free base = numbered base k
  stable : ∀ name, (name, node.position) ∈ names.reserved → names.reserve base node = (name, names)
  appends : node.position ∉ names.positions → names.reserve base node =
    (names.free base, ⟨names.reserved ++ [(names.free base, node.position)]⟩)

theorem Distinct.nameOf?_eq {node : Node} (distinct : names.Distinct)
    (listed : (name, node.position) ∈ names.reserved) : names.nameOf? node = some name := by
  cases known : names.nameOf? node with
  | none => exact absurd (List.mem_map_of_mem listed) (nameOf?_eq_none.mp known)
  | some other =>
    have same := List.inj_on_of_nodup_map distinct.nodesApart (mem_of_nameOf? known) listed rfl
    rw [(Prod.mk.inj same).1]

theorem Distinct.reservation (distinct : names.Distinct) (base : Text) (node : Node) :
    Reservation names base node where
  terminates := by
    obtain ⟨rounds, bound, search⟩ := names.exists_search base
    refine ⟨rounds, bound, fun result others => ⟨search.unique, ?_⟩⟩
    rintro ⟨rfl, rfl⟩
    exact search
  fresh := names.free_notMem base
  unnumbered := by
    intro free
    obtain ⟨n, -, first, same⟩ := names.exists_firstFree base
    cases n with
    | zero => exact same
    | succ n => exact absurd (first.before 0 n.succ_pos) free
  minimal := by
    intro taken
    obtain ⟨n, -, first, same⟩ := names.exists_firstFree base
    cases n with
    | zero => exact absurd taken first.free
    | succ n => exact ⟨n + 2, isLeast_of_firstFree first, same⟩
  stable := fun _ listed => reserve_of_some base (distinct.nameOf?_eq listed)
  appends := fun new => reserve_of_none base (nameOf?_eq_none.mpr new)

def Reachable (names : ClassNames) : Prop := Grants (fun _ _ => True) empty names

namespace Reachable

theorem grants {asks : Text → Node → Prop} {later : ClassNames} (reachable : Reachable names)
    (grants : Grants asks names later) : Reachable later :=
  Relation.ReflTransGen.trans reachable (grants.mono fun _ _ _ => trivial)

theorem distinct (reachable : Reachable names) : names.Distinct := Grants.distinct reachable distinct_empty

theorem start (root : Node) (rootName : Text) : Reachable (Draft.start root rootName).names :=
  (Draft.grants_start root rootName).mono fun _ _ _ => trivial

theorem exists_classes (document : Json.Value) (rootName : Text) :
    ∃ (nodes : List Node) (names : ClassNames), Reachable names ∧
      (∀ node ∈ nodes, (names.nameFor node, node.position) ∈ names.reserved) ∧
      classes document rootName = nodes.map (ClassModel.ofNode names (Node.root document)) := by
  obtain ⟨nodes, names, -, reachable, agenda, progress⟩ :=
    exists_run_keeping document rootName Reachable (start _ _) fun names entry _ reachable =>
      reachable.grants (ClassModel.grants_build _ names entry)
  refine ⟨nodes, names, reachable, fun node member => ?_, progress.models names (.refl names)⟩
  obtain ⟨name, found⟩ := Option.isSome_iff_exists.mp (agenda.named node member)
  rw [nameFor_eq found]
  exact mem_of_nameOf? found

end Reachable

end ClassNames

open ClassNames

theorem names_fresh_minimal_stable :
    (∀ names, Reachable names → names.Distinct ∧ ∀ base node, Reservation names base node) ∧
    (∀ root rootName, Reachable (Draft.start root rootName).names) ∧
    (∀ root owner draft fields, Reachable draft.names →
      Reachable (PropertyModel.collect root owner draft fields).2.names) ∧
    ∀ document rootName, ∃ (nodes : List Node) (names : ClassNames), Reachable names ∧
      (∀ node ∈ nodes, (names.nameFor node, node.position) ∈ names.reserved) ∧
      classes document rootName = nodes.map (ClassModel.ofNode names (Node.root document)) :=
  ⟨fun _ reachable => ⟨reachable.distinct, reachable.distinct.reservation⟩, Reachable.start,
    fun root owner draft fields reachable =>
      reachable.grants (PropertyModel.grants_collect root owner draft fields),
    Reachable.exists_classes⟩

def numberedKeys : Json.Value :=
  .object [
    ("definitions".toList, .object [
      ("config2".toList, .object [("type".toList, .string "object".toList)]),
      ("config".toList, .object [("type".toList, .string "object".toList)]),
      ("Config".toList, .object [("type".toList, .string "object".toList)])]),
    ("properties".toList, .object [
      ("config".toList, .object [("properties".toList, .object [])])])]

def inlineConfig : Node := ⟨[0, 1], .object [("properties".toList, .object [])]⟩

theorem config_numbered_behind_taken :
    let names := (Draft.start (Node.root numberedKeys) "Scene".toList).names
    Reachable names ∧
      names.taken = ["Scene".toList, "Config2".toList, "Config".toList, "Config3".toList] ∧
      inlineConfig.position ∉ names.positions ∧
      (names.reserve "Config".toList inlineConfig).1 = "Config4".toList ∧
      IsLeast {k | 2 ≤ k ∧ numbered "Config".toList k ∉ names.taken} 4 := by
  intro names
  have reachable : Reachable names := names_fresh_minimal_stable.2.1 _ _
  have request := (names_fresh_minimal_stable.1 names reachable).2 "Config".toList inlineConfig
  have taken : names.taken = ["Scene".toList, "Config2".toList, "Config".toList, "Config3".toList] := by
    decide
  have new : inlineConfig.position ∉ names.positions := by decide
  obtain ⟨k, least, same⟩ := request.minimal (by rw [taken]; decide)
  have four : names.free "Config".toList = numbered "Config".toList 4 := by decide
  obtain rfl : k = 4 := ofNat_injective (List.append_cancel_left (same.symm.trans four))
  refine ⟨reachable, taken, new, ?_, least⟩
  rw [request.appends new, four]
  rfl

end SchemaClasses.Schema
