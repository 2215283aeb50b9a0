import AssociationQuery.Proofs.Values.Ordered
import AssociationQuery.Proofs.Values.Texts
import AssociationQuery.Value.Document
import AssociationQuery.Value.Key

/-!
# AssociationQuery.Proofs.Values.Keys

Which values share a key.

Rows of two statements are paired by the keys of their values.  Whole numbers share a key whatever
their width, and a decimal shares the key of the text that spells it; beyond that only equal
values share one, JSON values of any depth included, `Value.key_eq_iff`.  Real numbers and NULL
are left out: the former pair by their bits, and the latter has no key.

JSON objects are lists of members here.  The values that the statement ranges over, `Ordered`,
are those that can be read, with the members in the order of their names.
-/

namespace AssociationQuery

namespace Value

/-- Neither NULL nor a real number. -/
def IsExact : Value → Prop
  | null | float _ | double _ => False
  | _ => True

/-- The JSON of the value has the members of each object in the order of their names. -/
def InOrder : Value → Prop
  | json j => j.InOrder
  | _ => True

/-- The two values denote the same whole number, the same text, the same bytes or the same JSON
value. -/
inductive Alike : Value → Value → Prop
  | integer {v w : Value} {n : Int} (hv : v.toInt? = some n) (hw : w.toInt? = some n) : Alike v w
  | text {v w : Value} {s : String} (hv : v.toText? = some s) (hw : w.toText? = some s) : Alike v w
  | bytes (bs : List UInt8) : Alike (bytes bs) (bytes bs)
  | json {j k : Json} (h : j.Same k) : Alike (json j) (json k)

/-! ## documents -/

/-- A value of a given type is in order as its JSON is. -/
theorem inOrder_ofTagged? {tag : String} {d : Json.Document} {v : Value}
    (h : ofTagged? tag d = some v) : v.InOrder := by
  unfold ofTagged? at h
  split at h
  case h_13 =>
    obtain ⟨j, hj, rfl⟩ := Option.map_eq_some_iff.1 h
    exact Json.Document.inOrder_toJson? d hj
  case h_1 =>
    split at h
    · cases h
      trivial
    · cases h
  case h_14 => cases h
  all_goals
    obtain ⟨_, _, rfl⟩ := Option.map_eq_some_iff.1 h
    trivial

/-- The values that are read from text are in order. -/
theorem inOrder_ofText? {text : String} {v : Value} (h : ofText? text = some v) : v.InOrder := by
  simp only [ofText?, Option.bind_eq_bind, Option.bind_eq_some_iff, Option.ite_none_right_eq_some]
    at h
  obtain ⟨d, -, -, hd⟩ := h
  unfold ofDocument? at hd
  split at hd
  · cases hd
    trivial
  · exact inOrder_ofTagged? hd
  · cases hd

/-- A value with its JSON in order, as every value is that is read from text. -/
abbrev Ordered := {v : Value // v.InOrder}

namespace Ordered

/-- The value that a JSON text describes. -/
def ofText? (text : String) : Option Ordered :=
  (Value.ofText? text).pmap Subtype.mk fun _ => inOrder_ofText?

/-- Reading in order leaves out nothing that can be read. -/
theorem map_val_ofText? (text : String) :
    (ofText? text).map Subtype.val = Value.ofText? text := by
  rw [ofText?, Option.map_pmap, Option.pmap_eq_map, Option.map_id']

end Ordered

/-! ## kinds of keys -/

variable {v w : Value}

/-- Whole numbers have their own keys. -/
theorem key_eq_integer_iff {n : Int} : v.key = some (.integer n) ↔ v.toInt? = some n := by
  cases v <;> simp [key, toInt?]

/-- So have texts, and the decimals that are spelled like them. -/
theorem key_eq_text_iff {s : String} : v.key = some (.text s) ↔ v.toText? = some s := by
  cases v <;> simp [key, toText?]

/-- So have bytes. -/
theorem key_eq_bytes_iff {bs : List UInt8} : v.key = some (.bytes bs) ↔ v = bytes bs := by
  cases v <;> simp [key]

/-- JSON is keyed by its text. -/
theorem key_eq_json_iff {t : String} : v.key = some (.json t) ↔ ∃ j, v = json j ∧ j.text = t := by
  cases v <;> simp [key]

/-- Only real numbers have the keys of real numbers. -/
theorem key_ne_real (h : v.IsExact) (x : Binary64) : v.key ≠ some (.real x) := by
  cases v <;> simp [key, IsExact] at h ⊢

/-- Values that denote the same share a key. -/
theorem Alike.key_eq (h : v.Alike w) (hv : v.InOrder) (hw : w.InOrder) : v.key = w.key := by
  cases h with
  | integer hv hw => rw [key_eq_integer_iff.2 hv, key_eq_integer_iff.2 hw]
  | text hv hw => rw [key_eq_text_iff.2 hv, key_eq_text_iff.2 hw]
  | bytes => rfl
  | json h => rw [(Json.InOrder.same_iff hv hw).1 h]

/-- Exact values that share a key denote the same. -/
theorem alike_of_key_eq (h : v.key = w.key) (hexact : v.IsExact) : v.Alike w := by
  -- by the key: it tells the kind of both values and what they hold
  cases hv : v.key with
  | none =>
    obtain rfl := key_eq_none_iff.1 hv
    exact hexact.elim
  | some k =>
    have hw : w.key = some k := h.symm.trans hv
    cases k with
    | integer n => exact .integer (key_eq_integer_iff.1 hv) (key_eq_integer_iff.1 hw)
    | real x => exact absurd hv (key_ne_real hexact x)
    | text s => exact .text (key_eq_text_iff.1 hv) (key_eq_text_iff.1 hw)
    | bytes bs =>
      obtain rfl := key_eq_bytes_iff.1 hv
      obtain rfl := key_eq_bytes_iff.1 hw
      exact .bytes bs
    | json t =>
      obtain ⟨j, rfl, hj⟩ := key_eq_json_iff.1 hv
      obtain ⟨k, rfl, hk⟩ := key_eq_json_iff.1 hw
      obtain rfl := Json.text_inj.1 (hj.trans hk.symm)
      exact .json j.same_refl

/-- Keys are exact.  Values other than NULL and real numbers share a key if they denote the same
whole number, text, bytes or JSON value and only then, and no two JSON trees share one. -/
theorem key_eq_iff :
    (∀ v w : Ordered, v.1.IsExact → w.1.IsExact → (v.1.key = w.1.key ↔ v.1.Alike w.1)) ∧
    ∀ j k : Json, (json j).key = (json k).key ↔ j = k := by
  constructor
  · intro ⟨v, hv⟩ ⟨w, hw⟩ hexact _
    exact ⟨fun h => alike_of_key_eq h hexact, fun h => h.key_eq hv hw⟩
  · intro j k
    rw [key, key, Option.some.injEq, ValueKey.json.injEq, Json.text_inj]

namespace Library

def notes : List (String × Json) :=
  [("pages", .integer 70), ("errata", .array [.string "p. \"7\"", .string "a\\,b"])]

/-- The record of a book, its notes nested under it. -/
def record (title : String) (notes : List (String × Json)) : Json :=
  .ofMembers [("title", .string title), ("copies", .array [.integer 7, .ofMembers notes])]

/-- A record is in order if its notes are. -/
theorem record_inOrder (title : String) {notes : List (String × Json)}
    (h : ∀ m ∈ notes, m.2.InOrder) : (record title notes).InOrder := by
  refine Json.inOrder_ofMembers ?_
  rw [List.forall_mem_cons, List.forall_mem_singleton]
  refine ⟨.string title, .array ?_⟩
  rw [List.forall_mem_cons, List.forall_mem_singleton]
  exact ⟨.integer 7, Json.inOrder_ofMembers h⟩

/-- The notes are in order. -/
theorem notes_inOrder : ∀ m ∈ notes, m.2.InOrder := by
  rw [notes, List.forall_mem_cons, List.forall_mem_singleton]
  refine ⟨.integer 70, .array ?_⟩
  rw [List.forall_mem_cons, List.forall_mem_singleton]
  exact ⟨.string _, .string _⟩

/-- The record as a value, which has its members in order whatever order they are given in. -/
def recorded (title : String) (notes : List (String × Json)) (h : ∀ m ∈ notes, m.2.InOrder) :
    Ordered :=
  ⟨json (record title notes), record_inOrder title h⟩

def ulysses : Ordered := recorded "Ulysses" notes notes_inOrder

/-- The same record, its notes written down in the other order. -/
def ulyssesAgain : Ordered :=
  recorded "Ulysses" notes.reverse fun m hm => notes_inOrder m (List.mem_reverse.1 hm)

def emma : Ordered := recorded "Emma" notes notes_inOrder

end Library

open Value.Library in
/-- One record written down in two orders shares a key, another title does not, nor does a text
that spells the record; whole numbers of two widths do.  The order that a text has its members in
is gone when it is read. -/
theorem key_eq_iff_library :
    ulysses.1.Alike ulyssesAgain.1 ∧ ¬ ulysses.1.Alike emma.1 ∧
    ¬ emma.1.Alike (text (record "Emma" notes).text) ∧
    (int (-7)).Alike (timestamp (-7)) ∧ (decimal "7.0").key = (text "7.0").key ∧
    (json (.object notes)).key ≠ (json (.object notes.reverse)).key ∧
    ∀ members ∈ [notes, notes.reverse],
      (Ordered.ofText? (json (.object members)).toText).map (fun v => v.1.key) =
        some (json (.ofMembers notes)).key := by
  refine ⟨?same, ?title, ?text, ?width, ?decimal, ?order, ?read⟩
  case same => exact (key_eq_iff.1 ulysses ulyssesAgain trivial trivial).1 (by decide +kernel)
  case title => exact (key_eq_iff.1 ulysses emma trivial trivial).not.1 (by decide +kernel)
  case text =>
    exact (key_eq_iff.1 emma ⟨text _, trivial⟩ trivial trivial).not.1 (by decide +kernel)
  case width =>
    exact (key_eq_iff.1 ⟨int _, trivial⟩ ⟨timestamp _, trivial⟩ trivial trivial).1 (by decide)
  case decimal =>
    exact (key_eq_iff.1 ⟨decimal _, trivial⟩ ⟨text _, trivial⟩ trivial trivial).2 (.text rfl rfl)
  case order => exact (key_eq_iff.2 _ _).not.2 (by decide +kernel)
  case read => decide +kernel

end Value

end AssociationQuery
