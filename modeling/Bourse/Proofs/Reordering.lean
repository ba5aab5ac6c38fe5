import Bourse.Proofs.ReadBack
import Mathlib.Data.List.Perm.Basic
import Mathlib.Data.Option.Basic

/-!
# Documents with their members in another order

The order of an object's members is up to whoever writes it, in the document itself and in
every document inside of it. The items of an array stay where they are.

Such a document has exactly the members of the other: under each key stands what stood there,
reordered in its turn, as long as no key is given twice.
-/

namespace Bourse.Json

mutual

/-- The documents that a document becomes when the members of objects change places. -/
inductive Reordered : Json → Json → Prop where
  | same (document : Json) : Reordered document document
  | array {items others : List Json} (inside : ItemsReordered items others) :
      Reordered (.array items) (.array others)
  | object {members inPlace others : List (Literal × Json)}
      (inside : MembersReordered members inPlace) (moved : inPlace.Perm others) :
      Reordered (.object members) (.object others)

/-- Items reordered inside, each in its place. -/
inductive ItemsReordered : List Json → List Json → Prop where
  | nil : ItemsReordered [] []
  | cons {item other : Json} {items others : List Json} (first : Reordered item other)
      (rest : ItemsReordered items others) : ItemsReordered (item :: items) (other :: others)

/-- Members reordered inside, each in its place under its key. -/
inductive MembersReordered : List (Literal × Json) → List (Literal × Json) → Prop where
  | nil : MembersReordered [] []
  | cons {key : Literal} {value other : Json} {members others : List (Literal × Json)}
      (first : Reordered value other) (rest : MembersReordered members others) :
      MembersReordered ((key, value) :: members) ((key, other) :: others)

end

namespace ItemsReordered

/-- Items are reordered into themselves. -/
theorem refl (items : List Json) : ItemsReordered items items := by
  induction items with
  | nil => exact .nil
  | cons item items induction => exact .cons (.same item) induction

/-- As many items are there after a reordering inside of them. -/
theorem length_eq {items others : List Json} (inside : ItemsReordered items others) :
    others.length = items.length := by
  induction items generalizing others with
  | nil => cases inside; rfl
  | cons item items induction =>
    obtain _ | ⟨first, rest⟩ := inside
    rw [List.length_cons, List.length_cons, induction rest]

end ItemsReordered

namespace MembersReordered

/-- Members are reordered into themselves. -/
theorem refl (members : List (Literal × Json)) : MembersReordered members members := by
  induction members with
  | nil => exact .nil
  | cons member members induction => exact .cons (.same member.2) induction

/-- The keys of members are the same after a reordering inside of them. -/
theorem keys_eq {members others : List (Literal × Json)}
    (inside : MembersReordered members others) : others.map Prod.fst = members.map Prod.fst := by
  induction members generalizing others with
  | nil => cases inside; rfl
  | cons member members induction =>
    obtain _ | ⟨first, rest⟩ := inside
    rw [List.map_cons, List.map_cons, induction rest]

/-- Each member comes from one with its key. -/
theorem origin {members others : List (Literal × Json)} (inside : MembersReordered members others)
    {key : Literal} {other : Json} (member : (key, other) ∈ others) :
    ∃ value, (key, value) ∈ members ∧ Reordered value other := by
  induction members generalizing others with
  | nil =>
    cases inside
    contradiction
  | cons first members induction =>
    obtain _ | ⟨changed, rest⟩ := inside
    rcases List.mem_cons.mp member with same | later
    · cases same
      exact ⟨_, List.mem_cons_self, changed⟩
    · obtain ⟨value, found, changed⟩ := induction rest later
      exact ⟨value, List.mem_cons_of_mem _ found, changed⟩

end MembersReordered

namespace Reordered

/-- A scalar has nothing to reorder. -/
theorem eq_of_scalar {document other : Json} (reordered : document.Reordered other)
    (scalar : document.isScalar = true) : other = document := by
  cases reordered with
  | same => rfl
  | array | object => contradiction

/-- An array stays an array. -/
theorem items {items : List Json} {other : Json} (reordered : (Json.array items).Reordered other) :
    ∃ others, other = .array others ∧ ItemsReordered items others := by
  cases reordered with
  | same => exact ⟨items, rfl, .refl items⟩
  | array inside => exact ⟨_, rfl, inside⟩

/-- An object stays an object. -/
theorem members {members : List (Literal × Json)} {other : Json}
    (reordered : (Json.object members).Reordered other) :
    ∃ inPlace others, other = .object others ∧ MembersReordered members inPlace ∧
      inPlace.Perm others := by
  cases reordered with
  | same => exact ⟨members, members, rfl, .refl members, .refl members⟩
  | object inside moved => exact ⟨_, _, rfl, inside, moved⟩

end Reordered

/-! ## Members under their keys -/

/-- A member among others with distinct keys is the one that is found. -/
theorem lookup_of_mem {key : Literal} {value : Json} {members : List (Literal × Json)}
    (distinct : (members.map Prod.fst).Nodup) (member : (key, value) ∈ members) :
    members.lookup key = some value := by
  induction members with
  | nil => contradiction
  | cons first members induction =>
    obtain ⟨apart, distinct⟩ := List.nodup_cons.mp distinct
    rcases List.mem_cons.mp member with rfl | later
    · exact List.lookup_cons_self
    · have other : key ≠ first.1 := by
        rintro rfl
        exact apart (List.mem_map.mpr ⟨_, later, rfl⟩)
      rw [List.lookup_cons, beq_false_of_ne other]
      exact induction distinct later

/-- What is found under a key is a member. -/
theorem mem_of_lookup {key : Literal} {value : Json} {members : List (Literal × Json)}
    (found : members.lookup key = some value) : (key, value) ∈ members := by
  obtain ⟨before, behind, rfl, -⟩ := List.lookup_eq_some_iff.mp found
  simp

/-- Nothing is found under what is no key. -/
theorem lookup_none_iff {key : Literal} {members : List (Literal × Json)} :
    members.lookup key = none ↔ key ∉ members.map Prod.fst := by
  simp only [List.lookup_eq_none_iff, bne_iff_ne, List.mem_map, not_exists, not_and]
  exact ⟨fun apart member listed same => apart member listed same.symm,
    fun apart member listed same => apart member listed same.symm⟩

/-- Under each key of a reordered object stands what stood there, reordered in its turn. -/
theorem MembersReordered.found {members inPlace others : List (Literal × Json)}
    (inside : MembersReordered members inPlace) (moved : inPlace.Perm others)
    (distinct : (members.map Prod.fst).Nodup) (key : Literal) :
    Option.Rel Reordered (members.lookup key) (others.lookup key) := by
  cases found : others.lookup key with
  | some other =>
    obtain ⟨value, member, changed⟩ := inside.origin (moved.mem_iff.mpr (mem_of_lookup found))
    rw [lookup_of_mem distinct member]
    exact .some changed
  | none =>
    have absent : members.lookup key = none := by
      have keys : (inPlace.map Prod.fst).Perm (others.map Prod.fst) := moved.map _
      rwa [lookup_none_iff, ← keys.mem_iff, inside.keys_eq, ← lookup_none_iff] at found
    rw [absent]
    exact .none

/-! ## Texts of reordered documents -/

/-- Members are exact if each of them is, with a key that is a text. -/
theorem members_exact_eq_all (members : List (Literal × Json)) :
    membersExact members = members.all fun member => member.1.isSome && member.2.isExact := by
  induction members with
  | nil => rfl
  | cons member members induction => rw [membersExact, List.all_cons, induction]

mutual

/-- A reordered document has as much of a text as the other. -/
theorem Reordered.is_exact_eq {document other : Json} :
    document.Reordered other → other.isExact = document.isExact
  | .same _ => rfl
  | .array inside => inside.exact_eq
  | .object inside moved => by
    rw [isExact, isExact, ← inside.exact_eq, members_exact_eq_all, members_exact_eq_all,
      moved.all_eq]

/-- Items are exact exactly if they were before a reordering inside of them. -/
theorem ItemsReordered.exact_eq {items others : List Json} :
    ItemsReordered items others → itemsExact others = itemsExact items
  | .nil => rfl
  | .cons first rest => by rw [itemsExact, itemsExact, first.is_exact_eq, rest.exact_eq]

/-- So are members. -/
theorem MembersReordered.exact_eq {members others : List (Literal × Json)} :
    MembersReordered members others → membersExact others = membersExact members
  | .nil => rfl
  | .cons first rest => by rw [membersExact, membersExact, first.is_exact_eq, rest.exact_eq]

end

end Bourse.Json
