import Bourse.Json.Fields
import Bourse.Proofs.CheckedArithmetic
import Bourse.Proofs.Reordering

/-!
# What decoders give

A decoder gives a value for a document if it gives it for every order of the members in that
document. A record of distinct members gives a value if each of its fields finds its own member
and is given its own part by it.
-/

namespace Bourse.Json

variable {α β : Type}

/-- A value is decoded from the document, whatever the order of its members. -/
def Gives (decode : Json → Except Fault α) (document : Json) (value : α) : Prop :=
  ∀ other, document.Reordered other → decode other = .ok value

/-- A scalar gives what is decoded from it as it is. -/
theorem Gives.of_scalar {decode : Json → Except Fault α} {document : Json} {value : α}
    (scalar : document.isScalar = true) (decoded : decode document = .ok value) :
    Gives decode document value := by
  intro other reordered
  rw [reordered.eq_of_scalar scalar, decoded]

/-- A function of what is decoded. -/
theorem Gives.map {decode : Json → Except Fault α} {document : Json} {value : α}
    (gives : Gives decode document value) (f : α → β) :
    Gives (fun document => (decode document).map f) document (f value) := by
  intro other reordered
  dsimp only
  rw [gives other reordered]
  rfl

/-- A text is decoded from its document. -/
theorem gives_text (value : String) : Gives toText (.text value) value := .of_scalar rfl rfl

/-- An integer is decoded between the bounds that it keeps. -/
theorem to_integer_int {low high value : Int} (above : low ≤ value) (below : value ≤ high) :
    toInteger low high (.int value) = .ok value := by
  have signed : (if value < 0 then -(value.natAbs : Int) else value.natAbs) = value := by
    split <;> omega
  have zero : ¬(value < 0 ∧ value.natAbs = 0) := by omega
  simp only [toInteger, int, decide_eq_true_eq, signed]
  rw [if_neg]
  simp only [Bool.or_eq_true, Bool.and_eq_true, decide_eq_true_eq, beq_iff_eq]
  omega

/-- So is a signed number that a word holds. -/
theorem gives_int64 {value : Int} (fits : Word.Fits value) : Gives toInt64 (.int value) value :=
  .of_scalar rfl (to_integer_int fits.1 fits.2)

/-- So is an unsigned number that a word holds. -/
theorem gives_nat64 {value : Nat} (below : value < Word.limit) :
    Gives toNat64 (.nat value) value := by
  have decoded : toInteger 0 (Word.limit - 1) (.int value) = .ok (value : Int) :=
    to_integer_int (by omega) (by omega)
  refine .of_scalar rfl ?_
  rw [toNat64, show Json.nat value = .int value by simp [nat, int], decoded]
  rfl

/-- A name of a table gives its value. -/
theorem gives_name {names : List (String × α)} {name : String} {value : α} (route : Route)
    (listed : names.lookup name = some value) : Gives (toName names route) (.text name) value := by
  refine .of_scalar rfl ?_
  simp only [text, toName, named, listed]

/-- What is not null is given by a decoder that takes null for none. -/
theorem Gives.present {decode : Json → Except Fault α} {document : Json} {value : α}
    (gives : Gives decode document value) (given : document ≠ .null) :
    Gives (toOptional decode) document (some value) := by
  intro other reordered
  have still : other ≠ .null := by
    rintro rfl
    cases reordered
    exact given rfl
  rw [toOptional, gives other reordered]
  · rfl
  · exact still

/-- An optional value is given by its document or by null. -/
theorem gives_nullable {decode : Json → Except Fault α} {write : α → Json} {option : Option α}
    (given : ∀ value ∈ option, write value ≠ .null)
    (gives : ∀ value ∈ option, Gives decode (write value) value) :
    Gives (toOptional decode) (nullable write option) option := by
  cases option with
  | none => exact .of_scalar rfl rfl
  | some value => exact (gives value rfl).present (given value rfl)

/-- Items that give values one by one give the list of them. -/
theorem items_give {decode : Json → Except Fault α} {write : α → Json} {values : List α}
    (gives : ∀ value ∈ values, Gives decode (write value) value) {others : List Json}
    (inside : ItemsReordered (values.map write) others) : others.mapM decode = .ok values := by
  induction values generalizing others with
  | nil =>
    cases inside
    rfl
  | cons value values induction =>
    obtain _ | ⟨first, rest⟩ := inside
    have later := induction (fun value member => gives value (List.mem_cons_of_mem _ member)) rest
    rw [List.mapM_cons, gives value List.mem_cons_self _ first, later]
    rfl

/-- A list is decoded from the documents of its values. -/
theorem gives_list {decode : Json → Except Fault α} {write : α → Json} {values : List α}
    (gives : ∀ value ∈ values, Gives decode (write value) value) :
    Gives (toList decode) (.array (values.map write)) values := by
  intro other reordered
  obtain ⟨others, rfl, inside⟩ := reordered.items
  exact items_give gives inside

/-- So is a vector. -/
theorem gives_vector {decode : Json → Except Fault α} {write : α → Json} {count : Nat}
    {values : Vector α count} (gives : ∀ value ∈ values.toList, Gives decode (write value) value) :
    Gives (toVector decode count) (.array (values.toList.map write)) values := by
  intro other reordered
  obtain ⟨others, rfl, inside⟩ := reordered.items
  have length : others.length = count := by
    rw [inside.length_eq, List.length_map, Vector.length_toList]
  have decoded : (others.take count).mapM decode = .ok values.toList := by
    rw [List.take_of_length_le length.le, items_give gives inside]
  have enough : values.toList.length = count := Vector.length_toList
  simp only [toVector, decoded, bind, Except.bind, length, Nat.lt_irrefl, if_false, enough,
    dite_true, Except.ok.injEq]
  cases values
  simp

/-! ## Records -/

/-- The member of a name, if the document is an object that has it. -/
def member? (name : String) : Json → Option Json
  | .object members => members.lookup (some name)
  | _ => none

/-- Members under keys that denote texts. -/
def keyed (members : List (String × Json)) : List (Literal × Json) :=
  members.map fun (key, value) => (some key, value)

/-- A record is the object of its members under their names. -/
theorem record_eq (members : List (String × Json)) : record members = .object (keyed members) := rfl

/-- The members of an object are found under the names they are given. -/
theorem keys_keyed (members : List (String × Json)) :
    (keyed members).map Prod.fst = (members.map Prod.fst).map some := by
  simp [keyed]

/-- The fields find what they need under their names: each check passes, and together they
build the value, also when what they find is reordered. -/
structure Fields.Gives (fields : Fields α) (get : String → Option Json) (value : α) : Prop where
  check : ∀ name document other, get name = some document → document.Reordered other →
    fields.check name other = .ok ()
  build : ∀ found : String → Option Json, (∀ name, Option.Rel Reordered (get name) (found name)) →
    fields.build found = .ok value

/-- A member that is there is there in the other document as well, up to order. -/
theorem related_some {document : Json} {found : Option Json}
    (related : Option.Rel Reordered (some document) found) :
    ∃ other, found = some other ∧ document.Reordered other := by
  cases related with
  | some reordered => exact ⟨_, rfl, reordered⟩

/-- A member that is missing is missing in the other document. -/
theorem related_none {found : Option Json} (related : Option.Rel Reordered none found) :
    found = none := by
  cases related
  rfl

namespace Fields

variable {get : String → Option Json}

/-- A field that is there. -/
theorem Gives.single {name : String} {decode : Json → Except Fault α} {absent : Option α}
    {document : Json} {value : α} (present : get name = some document)
    (gives : Json.Gives decode document value) :
    (Fields.single name decode absent).Gives get value where
  check key member other same reordered := by
    by_cases own : key = name
    · subst own
      obtain rfl := Option.some.inj (present.symm.trans same)
      simp only [Fields.single, if_true, gives other reordered]
      rfl
    · simp only [Fields.single, if_neg own]
  build found related := by
    obtain ⟨other, here, reordered⟩ := related_some (present ▸ related name)
    simp only [Fields.single, here, gives other reordered]

/-- A field that is left out, with a value for its absence. -/
theorem Gives.left_out {name : String} {decode : Json → Except Fault α} {value : α}
    (missing : get name = none) : (Fields.single name decode (some value)).Gives get value where
  check key member other same reordered := by
    have other_key : key ≠ name := by
      rintro rfl
      rw [missing] at same
      contradiction
    simp only [Fields.single, if_neg other_key]
  build found related := by
    have absent : found name = none := related_none (missing ▸ related name)
    simp only [Fields.single, absent]

/-- What is made of the fields of a value is what is made of the value. -/
theorem Gives.map {fields : Fields α} {value : α} (gives : fields.Gives get value) (f : α → β) :
    (f <$> fields).Gives get (f value) where
  check := gives.check
  build found related := by
    have built := gives.build found related
    show (fields.build found).map f = .ok (f value)
    rw [built]
    rfl

/-- The fields of a function and of its argument, each with its own part. -/
theorem Gives.apply {function : Fields (α → β)} {argument : Fields α} {f : α → β} {value : α}
    (first : function.Gives get f) (second : argument.Gives get value) :
    (function <*> argument).Gives get (f value) where
  check name document other same reordered := by
    show (do function.check name other; argument.check name other) = .ok ()
    rw [first.check name document other same reordered,
      second.check name document other same reordered]
    rfl
  build found related := by
    show (do
      let f ← function.build found
      let a ← argument.build found
      pure (f a)) = .ok (f value)
    rw [first.build found related, second.build found related]
    rfl

/-- Distinct members, each whole and accepted under its key, pass the check of an object. -/
theorem check_members_ok {fields : Fields α} {members : List (Literal × Json)} {seen : List String}
    (distinct : (members.map Prod.fst).Nodup)
    (fresh : ∀ key ∈ seen, some key ∉ members.map Prod.fst)
    (each : ∀ member ∈ members, ∃ key, member.1 = some key ∧ member.2.isWhole = true ∧
      fields.check key member.2 = .ok ()) :
    fields.checkMembers seen members = .ok () := by
  induction members generalizing seen with
  | nil => rfl
  | cons member members induction =>
    obtain ⟨key, document⟩ := member
    obtain ⟨⟨key, rfl, whole, passes⟩, others⟩ := List.forall_mem_cons.mp each
    obtain ⟨apart, distinct⟩ := List.nodup_cons.mp distinct
    have unseen : key ∉ seen := fun known => fresh key known List.mem_cons_self
    have later : ∀ key ∈ seen, some key ∉ members.map Prod.fst := fun key known listed =>
      fresh key known (List.mem_cons_of_mem _ listed)
    by_cases own : key ∈ fields.names
    · simp only [checkMembers, if_pos own, if_neg unseen, passes]
      refine induction distinct ?_ others
      intro other known
      rcases List.mem_cons.mp known with rfl | known
      · exact apart
      · exact later other known
    · simp only [checkMembers, if_neg own, if_pos whole]
      exact induction distinct later others

/-- A record of distinct members gives what its fields give together. -/
theorem Gives.decoded {fields : Fields α} {members : List (String × Json)} {value : α}
    (gives : fields.Gives (fun name => (record members).member? name) value)
    (distinct : (members.map Prod.fst).Nodup) (exact : (record members).isExact = true) :
    Json.Gives fields.decode (.record members) value := by
  intro other reordered
  have still : other.isExact = true := reordered.is_exact_eq.trans exact
  obtain ⟨inPlace, others, rfl, inside, moved⟩ := reordered.members
  have keys : ((keyed members).map Prod.fst).Nodup := by
    rw [keys_keyed]
    exact (List.nodup_map_iff (Option.some_injective _)).mpr distinct
  have related (name : String) : Option.Rel Reordered ((record members).member? name)
      (others.lookup (some name)) := inside.found moved keys (some name)
  have checked : fields.checkMembers [] others = .ok () := by
    refine check_members_ok ?_ (fun _ seen => absurd seen List.not_mem_nil) ?_
    · rw [← (moved.map Prod.fst).nodup_iff, inside.keys_eq]
      exact keys
    · rintro ⟨literal, other⟩ listed
      obtain ⟨document, member, changed⟩ := inside.origin (moved.mem_iff.mpr listed)
      obtain ⟨⟨key, document⟩, -, same⟩ := List.mem_map.mp member
      cases same
      refine ⟨key, rfl, ?_, ?_⟩
      · rw [isExact, members_exact_eq_all, List.all_eq_true] at still
        exact (laws_of_exact (Bool.and_eq_true_iff.mp (still _ listed)).2).1
      · exact gives.check key document other (lookup_of_mem keys member) changed
  simp only [Fields.decode, checked]
  exact gives.build _ related

end Fields

end Bourse.Json
