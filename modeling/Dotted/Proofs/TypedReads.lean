import Dotted.Proofs.Focus
import Dotted.Proofs.PathText
import Dotted.Proofs.Reread
import Dotted.Shape
import Mathlib.Data.List.Forall2

/-!
# Typed reads, written back

Many documents are read as one value: a record from an object with further
members or from an array of one item, a kind from its name or from an object.
The value is written as one document only, and that document need not be the
one it was read from.  It is read as the same value all the same, so a typed
read does not change when what it gave is written back.

* `Document.view_array` and `Document.view_object` look at what has been built;
  an object that is looked at has its keys in order.
* `Codec.Lawful` is the law of a codec, with what an optional value needs to
  know of null.  There is a lemma for each codec, and for a composite one the
  law carries over from its parts.
* `Shape.lawful_codec` puts them together by induction over shapes.
* `Document.getAs_after_write_back` is the result for a place in a document.
-/

namespace Dotted

/-! ## One level of a document -/

namespace Document

theorem root_injective : Function.Injective root := fun _ _ => ext_root

/-- The items of an array are those that it was made of. -/
theorem view_array (items : List Document) : (Document.array items).view = .array items := by
  refine congrArg View.array (root_injective.list_map ?_)
  rw [List.map_map]
  exact List.attach_map_subtype_val _

/-- The members of an object are those that it was made of, if these are in
order. -/
theorem view_object {members : List (String × Document)} (h : Members.Sorted members) :
    (Document.object members).view = .object members := by
  have hsorted : Members.Sorted (members.map fun member => (member.1, member.2.root)) :=
    List.pairwise_map.2 h
  have hroot : Function.Injective fun member : String × Document => (member.1, member.2.root) :=
    fun a b heq => Prod.ext (Prod.mk.inj heq).1 (ext_root (Prod.mk.inj heq).2)
  refine congrArg View.object (hroot.list_map ?_)
  rw [List.map_map]
  exact (List.attach_map_subtype_val _).trans (Json.ofList_of_sorted hsorted)

/-- An object lists its members in order. -/
theorem sorted_of_view_eq_object {document : Document} {members : List (String × Document)}
    (h : document.view = .object members) : Members.Sorted members := by
  obtain ⟨root, hordered⟩ := document
  cases root with
  | object plain =>
    obtain rfl := View.object.inj h
    have hsorted := hordered.sorted
    rw [Members.Sorted, ← List.attach_map_subtype_val plain, List.pairwise_map] at hsorted
    exact List.pairwise_map.2 hsorted
  | _ => cases h

end Document

namespace Codec

variable {α β : Type} {content : Codec α} {document : Document}

/-! ## Lists of results -/

/-- Both steps have succeeded. -/
theorem exists_of_bind_eq_ok {ε : Type} {result : Except ε α} {next : α → Except ε β} {value : β}
    (h : result >>= next = .ok value) : ∃ first, result = .ok first ∧ next first = .ok value := by
  cases result with
  | error reason => cases h
  | ok first => exact ⟨first, rfl, h⟩

/-- A list is read if each of its items is, and then item by item. -/
theorem mapM_eq_ok_iff {ε : Type} {read : α → Except ε β} {items : List α} {values : List β} :
    items.mapM read = .ok values ↔
      List.Forall₂ (fun item value => read item = .ok value) items values := by
  induction items generalizing values with
  | nil =>
    rw [List.forall₂_nil_left_iff]
    constructor
    · intro h
      cases h
      rfl
    · rintro rfl
      rfl
  | cons item rest ih =>
    rw [List.mapM_cons, List.forall₂_cons_left_iff]
    constructor
    · intro h
      obtain ⟨value, hitem, hvalues⟩ := exists_of_bind_eq_ok h
      obtain ⟨others, hrest, hlast⟩ := exists_of_bind_eq_ok hvalues
      cases hlast
      exact ⟨value, others, hitem, ih.1 hrest, rfl⟩
    · rintro ⟨value, others, hitem, hrest, rfl⟩
      rw [hitem, ih.2 hrest]
      rfl

/-- What has been read of some items is read of what it is written as. -/
theorem mapM_map_eq_ok {ε γ : Type} {read : α → Except ε β} {reread : γ → Except ε β}
    {write : β → γ} {items : List α} {values : List β} (h : items.mapM read = .ok values)
    (hback : ∀ item value, read item = .ok value → reread (write value) = .ok value) :
    (values.map write).mapM reread = .ok values := by
  rw [mapM_eq_ok_iff] at h ⊢
  induction h with
  | nil => exact .nil
  | cons hitem _ ih => exact .cons (hback _ _ hitem) ih

/-! ## The law of a codec -/

/-- A value that has been read is read again from what it is written as.  It is
written as null only if it has been read from null. -/
structure Lawful (codec : Codec α) : Prop where
  decode_encode : ∀ {document : Document} {value : α}, codec.decode document = .ok value →
    codec.decode (codec.encode value) = .ok value
  view_eq_null : ∀ {document : Document} {value : α}, codec.decode document = .ok value →
    (codec.encode value).view = .null → document.view = .null

/-- The law holds if every value is read from what it is written as, and none is
written as null. -/
theorem lawful_of_forall {codec : Codec α}
    (h : ∀ value, codec.decode (codec.encode value) = .ok value)
    (hnull : ∀ value, (codec.encode value).view ≠ .null) : codec.Lawful where
  decode_encode _ := h _
  view_eq_null _ heq := absurd heq (hnull _)

/-! ### Scalars -/

theorem lawful_integer (type : IntegerType) : (integer type).Lawful :=
  lawful_of_forall (fun value => dif_pos value.2) fun _ h => nomatch h

theorem lawful_float : float.Lawful := lawful_of_forall (fun _ => rfl) fun _ h => nomatch h

theorem lawful_bool : bool.Lawful := lawful_of_forall (fun _ => rfl) fun _ h => nomatch h

theorem lawful_string : string.Lawful := lawful_of_forall (fun _ => rfl) fun _ h => nomatch h

theorem lawful_char : char.Lawful := by
  refine lawful_of_forall (fun c => ?_) fun _ h => nomatch h
  show char.decode (.string (String.singleton c)) = _
  have hview : (Document.string (String.singleton c)).view = .string (String.singleton c) := rfl
  unfold char
  dsimp only
  rw [hview]
  dsimp only
  rw [String.toList_singleton]

theorem lawful_path : path.Lawful :=
  lawful_of_forall (fun _ => decode_path_eq_ok_iff.2 rfl) fun _ h => nomatch h

theorem lawful_kind : kind.Lawful := by
  refine lawful_of_forall (fun value => ?_) fun _ h => nomatch h
  show kindOfName value.name = .ok value
  rw [kindOfName, Kind.ofName?_name]

theorem lawful_document : Codec.document.Lawful where
  decode_encode _ := rfl
  view_eq_null h hnull := by
    cases h
    exact hnull

/-- The only value is read from null alone. -/
theorem lawful_unit : unit.Lawful where
  decode_encode _ := rfl
  view_eq_null {document _} h _ := by
    unfold unit at h
    dsimp only at h
    split at h
    · assumption
    · cases h

/-! ### Composite values -/

/-- An optional value is absent if null stands for it, and is otherwise read as
its content. -/
theorem decode_option_eq_ok_iff {value : Option α} :
    (option content).decode document = .ok value ↔
      (document.view = .null ∧ value = none) ∨
        (document.view ≠ .null ∧ ∃ found, content.decode document = .ok found ∧
          value = some found) := by
  unfold option
  dsimp only
  split
  · next hnull =>
    simp [hnull, eq_comm]
  · next hnull =>
    have hne : document.view ≠ .null := hnull
    cases content.decode document with
    | error reason => simp [hne]
    | ok found => simp [hne, eq_comm]

/-- A content that is there is not written as null, since it has not been read
from null. -/
theorem lawful_option (h : content.Lawful) : (option content).Lawful where
  decode_encode hdecode := by
    rw [decode_option_eq_ok_iff] at hdecode
    obtain ⟨-, rfl⟩ | ⟨hne, found, hfound, rfl⟩ := hdecode
    · rfl
    · refine decode_option_eq_ok_iff.2
        (Or.inr ⟨fun hnull => ?_, found, h.decode_encode hfound, rfl⟩)
      exact hne (h.view_eq_null hfound hnull)
  view_eq_null hdecode hview := by
    rw [decode_option_eq_ok_iff] at hdecode
    obtain ⟨hnull, -⟩ | ⟨-, found, hfound, rfl⟩ := hdecode
    · exact hnull
    · exact h.view_eq_null hfound hview

theorem decode_list_eq_ok_iff {values : List α} :
    (list content).decode document = .ok values ↔
      ∃ items, document.view = .array items ∧ items.mapM content.decode = .ok values := by
  unfold list
  dsimp only
  split
  · next items hview => simp [hview]
  · next hview =>
    simp only [reduceCtorEq, false_iff]
    rintro ⟨items, harray, -⟩
    exact hview items harray

theorem lawful_list (h : content.Lawful) : (list content).Lawful where
  decode_encode hdecode := by
    obtain ⟨items, -, hitems⟩ := decode_list_eq_ok_iff.1 hdecode
    exact decode_list_eq_ok_iff.2 ⟨_, Document.view_array _,
      mapM_map_eq_ok hitems fun _ _ => h.decode_encode⟩
  view_eq_null _ hview := nomatch (Document.view_array _).symm.trans hview

/-- A member is read as its key with what its value is read as. -/
def decodeMember (content : Codec α) (member : String × Document) :
    Except Mismatch (String × α) :=
  (content.decode member.2).map (Prod.mk member.1)

theorem decodeMember_eq_ok_iff {member : String × Document} {value : String × α} :
    decodeMember content member = .ok value ↔
      member.1 = value.1 ∧ content.decode member.2 = .ok value.2 := by
  rw [decodeMember]
  cases content.decode member.2 with
  | error reason => simp [Except.map]
  | ok found => simp [Except.map, Prod.ext_iff]

theorem decode_map_eq_ok_iff {values : List (String × α)} :
    (map content).decode document = .ok values ↔
      ∃ members, document.view = .object members ∧
        members.mapM (decodeMember content) = .ok values := by
  unfold map
  dsimp only
  split
  · next members hview =>
    change members.mapM (decodeMember content) = _ ↔ _
    simp [hview]
  · next hview =>
    simp only [reduceCtorEq, false_iff]
    rintro ⟨members, hobject, -⟩
    exact hview members hobject

/-- Members keep their keys when they are read. -/
theorem keys_of_mapM_decodeMember {members : List (String × Document)}
    {values : List (String × α)} (h : members.mapM (decodeMember content) = .ok values) :
    members.map Prod.fst = values.map Prod.fst := by
  rw [mapM_eq_ok_iff] at h
  induction h with
  | nil => rfl
  | cons hmember _ ih => rw [List.map_cons, List.map_cons, ih, (decodeMember_eq_ok_iff.1 hmember).1]

/-- The keys of a map are in order, because they are those of the object that it
has been read from. -/
theorem sorted_of_decode_map {values : List (String × α)}
    (h : (map content).decode document = .ok values) : Members.Sorted values := by
  obtain ⟨members, hview, hmembers⟩ := decode_map_eq_ok_iff.1 h
  have hkeys : (members.map Prod.fst).Pairwise (· < ·) :=
    List.pairwise_map.2 (Document.sorted_of_view_eq_object hview)
  rw [keys_of_mapM_decodeMember hmembers] at hkeys
  exact List.pairwise_map.1 hkeys

theorem lawful_map (h : content.Lawful) : (map content).Lawful where
  decode_encode {_ values} hdecode := by
    obtain ⟨members, -, hmembers⟩ := decode_map_eq_ok_iff.1 hdecode
    refine decode_map_eq_ok_iff.2 ⟨_, Document.view_object ?_, mapM_map_eq_ok hmembers ?_⟩
    · exact List.pairwise_map.2 (sorted_of_decode_map hdecode)
    · intro member value hmember
      exact decodeMember_eq_ok_iff.2 ⟨rfl, h.decode_encode (decodeMember_eq_ok_iff.1 hmember).2⟩
  view_eq_null _ hview := nomatch hview

theorem exists_of_decode_pair {second : Codec β} {value : α × β}
    (h : (pair content second).decode document = .ok value) :
    ∃ a b, content.decode a = .ok value.1 ∧ second.decode b = .ok value.2 := by
  unfold pair at h
  dsimp only at h
  split at h
  · cases h
  · obtain ⟨first, -, hshort⟩ := exists_of_bind_eq_ok h
    cases hshort
  · next a b further _ =>
    obtain ⟨first, ha, hsecond⟩ := exists_of_bind_eq_ok h
    obtain ⟨last, hb, hpair⟩ := exists_of_bind_eq_ok hsecond
    split at hpair
    · cases hpair
      exact ⟨a, b, ha, hb⟩
    · cases hpair
  · cases h

theorem lawful_pair {second : Codec β} (h : content.Lawful) (hsecond : second.Lawful) :
    (pair content second).Lawful where
  decode_encode {_ value} hdecode := by
    obtain ⟨a, b, ha, hb⟩ := exists_of_decode_pair hdecode
    show (pair content second).decode (.array [content.encode value.1, second.encode value.2]) = _
    unfold pair
    dsimp only
    rw [Document.view_array]
    dsimp only
    rw [h.decode_encode ha, hsecond.decode_encode hb]
    rfl
  view_eq_null _ hview := nomatch hview

/-- A record is read from what its member is read from, in an object or in an
array. -/
theorem exists_of_decode_record {name key : String} {value : α}
    (h : (record name key content).decode document = .ok value) :
    ∃ member, content.decode member = .ok value := by
  unfold record at h
  dsimp only at h
  split at h
  · split at h
    · exact ⟨_, h⟩
    · cases h
  · cases h
  · next item further _ =>
    obtain ⟨found, hitem, hfound⟩ := exists_of_bind_eq_ok h
    split at hfound
    · cases hfound
      exact ⟨item, hitem⟩
    · cases hfound
  · cases h

theorem lawful_record (name key : String) (h : content.Lawful) :
    (record name key content).Lawful where
  decode_encode {_ value} hdecode := by
    obtain ⟨member, hmember⟩ := exists_of_decode_record hdecode
    have hview : ((record name key content).encode value).view
        = .object [(key, content.encode value)] :=
      Document.view_object (List.pairwise_singleton _ _)
    have hlookup : [(key, content.encode value)].lookup key = some (content.encode value) :=
      List.lookup_cons_self
    unfold record at hview ⊢
    dsimp only at hview ⊢
    rw [hview]
    dsimp only
    rw [hlookup]
    exact h.decode_encode hmember
  view_eq_null _ hview := nomatch hview

end Codec

/-- The law holds for every shape. -/
theorem Shape.lawful_codec (shape : Shape) : shape.codec.Lawful := by
  induction shape with
  | integer type => exact Codec.lawful_integer type
  | float => exact Codec.lawful_float
  | bool => exact Codec.lawful_bool
  | char => exact Codec.lawful_char
  | string => exact Codec.lawful_string
  | unit => exact Codec.lawful_unit
  | document => exact Codec.lawful_document
  | path => exact Codec.lawful_path
  | kind => exact Codec.lawful_kind
  | option content ih => exact Codec.lawful_option ih
  | list content ih => exact Codec.lawful_list ih
  | map content ih => exact Codec.lawful_map ih
  | pair first second ihFirst ihSecond => exact Codec.lawful_pair ihFirst ihSecond
  | record name key content ih => exact Codec.lawful_record name key ih

/-! ## Places in a document -/

namespace Document

variable {document found leaf : Document} {path : Path} {shape : Shape}

theorem getAs_of_get_eq_none (h : (document.get path).value = none) (shape : Shape) :
    (document.getAs path shape).value = .ok none := by
  rw [getAs, h]

/-- What is read at a shape is what is found there, decoded. -/
theorem getAs_of_get_eq_some (h : (document.get path).value = some found) (shape : Shape) :
    (document.getAs path shape).value =
      ((shape.codec.decode found).map some).mapError (TypeError.mk path.text) := by
  rw [getAs, h]
  dsimp only
  cases shape.codec.decode found <;> rfl

theorem getAs_eq_some_iff {typed : shape.Carrier} :
    (document.getAs path shape).value = .ok (some typed) ↔
      ∃ found, (document.get path).value = some found ∧ shape.codec.decode found = .ok typed := by
  cases hget : (document.get path).value with
  | none => simp [getAs_of_get_eq_none hget]
  | some found =>
    rw [getAs_of_get_eq_some hget, mapError_eq_ok_iff]
    cases hdecode : shape.codec.decode found with
    | error mismatch => simp [hdecode, Except.map]
    | ok value => simp [hdecode, Except.map]

theorem getAs_eq_none_iff :
    (document.getAs path shape).value = .ok none ↔ (document.get path).value = none := by
  refine ⟨fun h => ?_, fun h => getAs_of_get_eq_none h shape⟩
  cases hget : (document.get path).value with
  | none => rfl
  | some found =>
    rw [getAs_of_get_eq_some hget, mapError_eq_ok_iff] at h
    cases hdecode : shape.codec.decode found <;> rw [hdecode] at h <;> cases h

theorem location_of_getAs_eq_error {error : TypeError}
    (h : (document.getAs path shape).value = .error error) : error.location = path.text := by
  cases hget : (document.get path).value with
  | none =>
    rw [getAs_of_get_eq_none hget] at h
    cases h
  | some found =>
    rw [getAs_of_get_eq_some hget] at h
    cases hdecode : shape.codec.decode found with
    | ok value =>
      rw [hdecode] at h
      cases h
    | error mismatch =>
      rw [hdecode] at h
      cases h
      rfl

/-- Where a value is found another one can be put, and is found there then. -/
theorem set_of_get_eq_some (h : (document.get path).value = some found) (leaf : Document) :
    (document.set path leaf).error? = none ∧
      ((document.set path leaf).document.get path).value = some leaf := by
  cases hfocus : document.focus? path with
  | none =>
    rw [← map_value_focus?, hfocus] at h
    cases h
  | some focus =>
    have haccepted := (set_of_focus? hfocus leaf).1
    exact ⟨haccepted,
      value_get_eq_some_iff.2 (Json.follow_written (written_eq_ok_of_accepted haccepted))⟩

/-- A typed read finds nothing exactly if the path leads to nothing.  If it gives
a value, the value can be written back in its place, and the same read gives it
again.  If it fails, the error names the whole path.  This holds for every shape:
for scalars of every type, for paths and kinds, and for optional values, lists,
maps, pairs and records of whatever shape. -/
theorem getAs_after_write_back (document : Document) (path : Path) (shape : Shape) :
    ((document.getAs path shape).value = .ok none ↔ (document.get path).value = none) ∧
      (∀ typed, (document.getAs path shape).value = .ok (some typed) →
        (document.set path (shape.codec.encode typed)).error? = none ∧
          ((document.set path (shape.codec.encode typed)).document.getAs path shape).value
            = .ok (some typed)) ∧
      ∀ error, (document.getAs path shape).value = .error error → error.location = path.text := by
  refine ⟨getAs_eq_none_iff, fun typed h => ?_, fun _ => location_of_getAs_eq_error⟩
  obtain ⟨found, hget, hdecode⟩ := getAs_eq_some_iff.1 h
  obtain ⟨haccepted, hagain⟩ := set_of_get_eq_some hget (shape.codec.encode typed)
  exact ⟨haccepted, getAs_eq_some_iff.2 ⟨_, hagain, shape.lawful_codec.decode_encode hdecode⟩⟩

/-- Two kinds in a list, the second one named by a key. -/
def namedKinds : Document := .array [.array [.string "null", .object [("array", .null)]]]

/-- The list is written back with the names alone.  It is no truth value, and
nothing stands behind it. -/
theorem getAs_after_write_back_kinds :
    (namedKinds.getAs (.single (.ofIndex 0)) (.list .kind)).value = .ok (some [.null, .array]) ∧
      (namedKinds.set (.single (.ofIndex 0)) (.array [.string "null", .string "array"])).error?
        = none ∧
      ((namedKinds.set (.single (.ofIndex 0))
        (.array [.string "null", .string "array"])).document.getAs
          (.single (.ofIndex 0)) (.list .kind)).value = .ok (some [.null, .array]) ∧
      (∃ error, (namedKinds.getAs (.single (.ofIndex 0)) .bool).value = .error error ∧
        error.location = "0") ∧
      (namedKinds.get (.single (.ofIndex 1))).value = none := by
  have htyped : (namedKinds.getAs (.single (.ofIndex 0)) (.list .kind)).value
      = .ok (some [.null, .array]) := rfl
  have habsent : (namedKinds.getAs (.single (.ofIndex 1)) (.list .kind)).value = .ok none := rfl
  obtain ⟨-, hback, -⟩ := getAs_after_write_back namedKinds (.single (.ofIndex 0)) (.list .kind)
  obtain ⟨-, -, hfails⟩ := getAs_after_write_back namedKinds (.single (.ofIndex 0)) .bool
  obtain ⟨hnone, -, -⟩ := getAs_after_write_back namedKinds (.single (.ofIndex 1)) (.list .kind)
  obtain ⟨haccepted, hagain⟩ := hback _ htyped
  exact ⟨htyped, haccepted, hagain, ⟨_, rfl, hfails _ rfl⟩, hnone.1 habsent⟩

end Document

end Dotted
