import Daedalus.Foundation.Run
import Daedalus.Foundation.SyncMap

/-!
# JSON documents

Documents as values, and how a statically typed program reads them into records. Every member whose
name matches a field, up to the case of its letters, is stored in that field, in the order of the
document, and unknown members are ignored. A later text, number or flag replaces an earlier one, and
`null` leaves it as it is; records are merged, and so are the elements of lists at the same
position, as long as the list is not emptied in between. A document of the wrong kind is an error,
also when a later one takes its place. Numbers are integers.

So a reader is given all documents that are stored in its place, oldest first.
-/
namespace Daedalus.Foundation

inductive Json where
  | null
  | bool (b : Bool)
  | num (n : ℤ)
  | str (s : String)
  | arr (items : List Json)
  | obj (members : List (String × Json))
  deriving Repr

namespace Json

variable {ε α : Type}

/-- Letters up to case. The long s and the Kelvin sign fold to ASCII letters too. -/
def foldRune (c : Char) : Char :=
  if c = '\u017F' then 'S' else if c = '\u212A' then 'K' else c.toUpper

def matchesField (name key : String) : Bool :=
  key = name || key.toList.map foldRune = name.toList.map foldRune

/-- The documents that are stored in a field, oldest first. -/
def values (members : List (String × Json)) (name : String) : List Json :=
  (members.filter (matchesField name ·.1)).map (·.2)

/-- The value at a path of member names. -/
def at? : Json → List String → Option Json
  | j, [] => some j
  | .obj members, name :: path => (members.lookup name).bind (at? · path)
  | _, _ :: _ => none

/-! ## Members that are left out when empty -/

def omitEmpty (name : String) (s : String) : List (String × Json) :=
  if s = "" then [] else [(name, .str s)]

def omitZero (name : String) (n : ℤ) : List (String × Json) :=
  if n = 0 then [] else [(name, .num n)]

def omitNil (name : String) (encode : α → Json) (xs : List α) : List (String × Json) :=
  if xs.isEmpty then [] else [(name, .arr (xs.map encode))]

def omitNoMembers (name : String) (members : List (String × Json)) : List (String × Json) :=
  if members.isEmpty then [] else [(name, .obj members)]

def omitNone (name : String) (encode : α → Json) (x : Option α) : List (String × Json) :=
  (x.map fun a => (name, encode a)).toList

/-- A list that is `null` when nothing was added to it. -/
def ofSlice (items : List Json) : Json := if items.isEmpty then .null else .arr items

/-! ## Decoding -/

section Decoding

variable (err : ε)

/-- A value that every document but `null` replaces. -/
def toScalar (read : Json → Option α) (zero : α) (docs : List Json) : Except ε α :=
  docs.foldlM (fun a j =>
    match j with
    | .null => .ok a
    | j => (read j).elim (.error err) .ok) zero

def toStr : List Json → Except ε String :=
  toScalar err (fun | .str s => some s | _ => none) ""

/-- The integers of 64 bits. -/
def IsInt (n : ℤ) : Prop := -2 ^ 63 ≤ n ∧ n < 2 ^ 63

instance (n : ℤ) : Decidable (IsInt n) := inferInstanceAs (Decidable (_ ∧ _))

def toInt : List Json → Except ε ℤ :=
  toScalar err (fun | .num n => if IsInt n then some n else none | _ => none) 0

def toBool : List Json → Except ε Bool :=
  toScalar err (fun | .bool b => some b | _ => none) false

/-- The documents at each position of a list, when another list is stored in its place. -/
def stack : List (List Json) → List Json → List (List Json)
  | columns, [] => columns
  | [], items => items.map ([·])
  | column :: columns, item :: items => (column ++ [item]) :: stack columns items

/-- A list. The elements beyond its length are kept until it is emptied, by `null` or by an empty
list. -/
def toList (decode : List Json → Except ε α) (docs : List Json) : Except ε (List α) := do
  let (columns, length) ← docs.foldlM (fun (columns, _) j =>
    match j with
    | .null | .arr [] => (columns.mapM decode).map fun _ => ([], 0)
    | .arr items => .ok (stack columns items, items.length)
    | _ => .error err) (([], 0) : List (List Json) × ℕ)
  return (← columns.mapM decode).take length

/-- A value that may be absent: `null` stands for its absence. -/
def toOptional (decode : List Json → Except ε α) (docs : List Json) : Except ε (Option α) := do
  let since ← docs.foldlM (fun since j =>
    match j with
    | .null => (decode since).map fun _ => []
    | j => .ok (since ++ [j])) ([] : List Json)
  if since.isEmpty then return none else return some (← decode since)

/-- The members of a record, those of all documents together. -/
def toMembers (docs : List Json) : Except ε (List (String × Json)) :=
  docs.foldlM (fun members j =>
    match j with
    | .obj more => .ok (members ++ more)
    | .null => .ok members
    | _ => .error err) []

end Decoding

/-- A field of a record. -/
def field (members : List (String × Json)) (name : String) (decode : List Json → Except ε α) :
    Except ε α :=
  decode (values members name)

/-- A value that is made from one document. -/
def unmarshal (decode : List Json → Except ε α) (j : Json) : Except ε α := decode [j]

/-! ## Reading back what was written -/

section RoundTrip

variable {members : List (String × Json)} {name : String}

/-- No two of the names are the same up to case. -/
def Distinguishable (fields : List String) : Prop :=
  ∀ a ∈ fields, ∀ b ∈ fields, matchesField a b → a = b

instance (fields : List String) : Decidable (Distinguishable fields) :=
  inferInstanceAs (Decidable (∀ a ∈ fields, ∀ b ∈ fields, _ → _))

/-- Among names that are told apart a member is found by its name. -/
theorem values_eq_lookup (fields : List String) (apart : Distinguishable fields)
    (nodup : fields.Nodup) (keys : (members.map (·.1)).Sublist fields) (hname : name ∈ fields) :
    values members name = (members.lookup name).toList := by
  have own : ∀ m ∈ members, matchesField name m.1 = decide (m.1 = name) := by
    intro m hm
    have hkey : m.1 ∈ fields := keys.subset (List.mem_map_of_mem hm)
    rw [Bool.eq_iff_iff, decide_eq_true_iff]
    exact ⟨fun hmatch => (apart name hname m.1 hkey hmatch).symm,
      fun h => by simp [matchesField, h]⟩
  have keyed : (members.map (·.1)).Nodup := nodup.sublist keys
  unfold values
  rw [List.filter_congr own]
  clear own keys
  induction members with
  | nil => rfl
  | cons m members ih =>
    obtain ⟨key, j⟩ := m
    obtain ⟨fresh, keyed⟩ := List.nodup_cons.mp keyed
    by_cases hkey : key = name
    · subst hkey
      have others : members.filter (fun m => decide (m.1 = key)) = [] := by
        refine List.filter_eq_nil_iff.mpr fun m hm same => fresh ?_
        exact List.mem_map.mpr ⟨m, hm, of_decide_eq_true same⟩
      simp [others]
    · rw [List.filter_cons_of_neg (by simpa using hkey), ih keyed, List.lookup_cons,
        beq_eq_false_iff_ne.mpr (Ne.symm hkey)]

theorem values_eq_nil (h : ∀ m ∈ members, ¬ matchesField name m.1) : values members name = [] := by
  unfold values
  rw [List.filter_eq_nil_iff.mpr h]
  rfl

theorem keys_omitEmpty (s : String) : ((omitEmpty name s).map (·.1)).Sublist [name] := by
  unfold omitEmpty
  split_ifs <;> simp

theorem keys_omitNil (encode : α → Json) (xs : List α) :
    ((omitNil name encode xs).map (·.1)).Sublist [name] := by
  unfold omitNil
  split_ifs <;> simp

theorem keys_omitNone (encode : α → Json) (x : Option α) :
    ((omitNone name encode x).map (·.1)).Sublist [name] := by
  cases x <;> simp [omitNone]

variable {key : String}

@[simp] theorem lookup_singleton (j : Json) :
    [(name, j)].lookup key = if key = name then some j else none := by
  by_cases hk : key = name
  · simp [hk]
  · rw [List.lookup_cons, beq_eq_false_iff_ne.mpr hk]
    simp [hk]

@[simp] theorem lookup_omitEmpty (s : String) : (omitEmpty name s).lookup key =
    if key = name ∧ s ≠ "" then some (.str s) else none := by
  by_cases hs : s = "" <;> simp [omitEmpty, hs]

@[simp] theorem lookup_omitNil (encode : α → Json) (xs : List α) :
    (omitNil name encode xs).lookup key =
      if key = name ∧ xs ≠ [] then some (.arr (xs.map encode)) else none := by
  cases xs <;> simp [omitNil]

@[simp] theorem lookup_omitNoMembers : (omitNoMembers name members).lookup key =
    if key = name ∧ members ≠ [] then some (.obj members) else none := by
  cases members <;> simp [omitNoMembers]

@[simp] theorem lookup_omitNone (encode : α → Json) (x : Option α) :
    (omitNone name encode x).lookup key = if key = name then x.map encode else none := by
  cases x <;> simp [omitNone]

@[simp] theorem toStr_singleton (err : ε) (s : String) : toStr err [.str s] = .ok s := rfl

theorem toInt_singleton (err : ε) {n : ℤ} (h : IsInt n) : toInt err [.num n] = .ok n := by
  simp [toInt, toScalar, h, Option.elim]

theorem toList_map {β : Type} {err : ε} {encode : α → Json} {decode : List Json → Except ε β}
    {f : α → β} {xs : List α} (h : ∀ x ∈ xs, decode [encode x] = .ok (f x)) :
    toList err decode [.arr (xs.map encode)] = .ok (xs.map f) := by
  have each : (xs.map fun x => [encode x]).mapM decode = .ok (xs.map f) := by
    induction xs with
    | nil => rfl
    | cons x xs ih =>
      obtain ⟨hx, hxs⟩ := List.forall_mem_cons.mp h
      simp only [List.map_cons, List.mapM_cons, hx, ih hxs]
      rfl
  cases xs with
  | nil => rfl
  | cons x xs =>
    have columns : stack [] ((x :: xs).map encode) = (x :: xs).map fun x => [encode x] := by
      simp [stack, Function.comp_def]
    refine bind_eq_ok.mpr
      ⟨(stack [] ((x :: xs).map encode), ((x :: xs).map encode).length), rfl, ?_⟩
    refine bind_eq_ok.mpr ⟨(x :: xs).map f, by rw [columns, each], ?_⟩
    rw [List.length_map, ← List.length_map f, List.take_length]
    rfl

end RoundTrip

end Json

end Daedalus.Foundation
