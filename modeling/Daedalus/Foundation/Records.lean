import Daedalus.Foundation.Json
import Daedalus.Foundation.Rounding

/-!
# Records and maps as documents

A record is written as the members of those of its fields that are not left out, and a map as its
entries in the order of their keys. Both read back as they were: a member is found by the name of
its field, as long as no two names are the same up to case.

The values of a map may be of any kind. Numbers among them are read as floating-point numbers of 53
bits, and objects as maps.
-/
namespace Daedalus.Foundation.Json

variable {ε α : Type}

/-! ## Records -/

/-- The members of the fields that are written. -/
def object (fields : List (String × Option Json)) : List (String × Json) :=
  fields.filterMap fun f => f.2.map (f.1, ·)

/-- A text that is left out when empty. -/
def unlessEmpty (s : String) : Option Json := if s = "" then none else some (.str s)

/-- A list that is left out when empty. -/
def unlessNil (encode : α → Json) (xs : List α) : Option Json :=
  if xs.isEmpty then none else some (.arr (xs.map encode))

/-- What was written for a field reads back as `a`. -/
def Reads (decode : List Json → Except ε α) (a : α) (written : Option Json) : Prop :=
  decode written.toList = .ok a

section Records

variable {fields : List (String × Option Json)} {name : String} {written : Option Json} {err : ε}
  {decode : List Json → Except ε α} {a : α}

theorem keys_object : ((object fields).map (·.1)).Sublist (fields.map (·.1)) := by
  induction fields with
  | nil => simp [object]
  | cons f fields ih =>
    obtain ⟨name, written⟩ := f
    cases written with
    | none => exact ih.cons name
    | some j => exact ih.cons_cons name

theorem mem_object {j : Json} : (name, j) ∈ object fields ↔ (name, some j) ∈ fields := by
  simp [object]

theorem lookup_object (nodup : (fields.map (·.1)).Nodup) (h : (name, written) ∈ fields) :
    (object fields).lookup name = written := by
  have keyed : Table.Keyed (object fields) := nodup.sublist keys_object
  cases written with
  | some j => exact keyed.load_iff.mpr (mem_object.mpr h)
  | none =>
    cases hlookup : (object fields).lookup name with
    | none => rfl
    | some j =>
      have hj : (name, some j) ∈ fields := mem_object.mp (Table.mem_of_load hlookup)
      have same : (name, none) = (name, some j) := List.inj_on_of_nodup_map nodup h hj rfl
      cases same

/-- None of the members is taken for one of the fields. -/
def Foreign (fields : List (String × Option Json)) (extra : List (String × Json)) : Prop :=
  ∀ m ∈ extra, ∀ f ∈ fields, ¬ matchesField f.1 m.1

theorem foreign_nil : Foreign fields [] := by simp [Foreign]

/-- What is found under the name of a field is what was written for it, whatever other members
there are. -/
theorem values_object {extra : List (String × Json)} (apart : Distinguishable (fields.map (·.1)))
    (nodup : (fields.map (·.1)).Nodup) (foreign : Foreign fields extra)
    (h : (name, written) ∈ fields) : values (object fields ++ extra) name = written.toList := by
  have hname : name ∈ fields.map (·.1) := List.mem_map_of_mem h
  have unmatched : values extra name = [] := values_eq_nil fun m hm => foreign m hm _ h
  have own : values (object fields ++ extra) name =
      values (object fields) name ++ values extra name := by
    simp [values, List.filter_append]
  rw [own, unmatched, List.append_nil, values_eq_lookup _ apart nodup keys_object hname,
    lookup_object nodup h]

/-- A field is read back from a record, whatever other members there are. -/
theorem field_object {extra : List (String × Json)} (apart : Distinguishable (fields.map (·.1)))
    (nodup : (fields.map (·.1)).Nodup) (foreign : Foreign fields extra)
    (h : (name, written) ∈ fields) (reads : Reads decode a written) :
    field (object fields ++ extra) name decode = .ok a := by
  rw [field, values_object apart nodup foreign h]
  exact reads

theorem field_record (apart : Distinguishable (fields.map (·.1)))
    (nodup : (fields.map (·.1)).Nodup) (h : (name, written) ∈ fields)
    (reads : Reads decode a written) : field (object fields) name decode = .ok a := by
  simpa using field_object apart nodup foreign_nil h reads

theorem reads_str (s : String) : Reads (toStr err) s (some (.str s)) := rfl

theorem reads_unlessEmpty (s : String) : Reads (toStr err) s (unlessEmpty s) := by
  unfold unlessEmpty
  split_ifs with hs
  · rw [hs]
    rfl
  · rfl

theorem reads_int {n : ℤ} (h : IsInt n) : Reads (toInt err) n (some (.num n)) :=
  toInt_singleton err h

theorem reads_bool (b : Bool) : Reads (toBool err) b (some (.bool b)) := rfl

theorem reads_unlessNil {encode : α → Json} {xs : List α}
    (each : ∀ x ∈ xs, decode [encode x] = .ok x) :
    Reads (toList err decode) xs (unlessNil encode xs) := by
  unfold unlessNil
  split_ifs with hxs
  · rw [List.isEmpty_iff.mp hxs]
    rfl
  · simpa [Reads] using toList_map (f := id) each

/-- A list that is always written, as `null` when it is empty. -/
theorem reads_ofSlice {encode : α → Json} {xs : List α}
    (each : ∀ x ∈ xs, decode [encode x] = .ok x) :
    Reads (toList err decode) xs (some (ofSlice (xs.map encode))) := by
  cases xs with
  | nil => rfl
  | cons x xs => simpa [Reads, ofSlice] using toList_map (f := id) each

theorem reads_optional {encode : α → Json} {x : Option α}
    (each : ∀ a ∈ x, decode [encode a] = .ok a) (present : ∀ a, encode a ≠ .null) :
    Reads (toOptional decode) x (x.map encode) := by
  cases x with
  | none => rfl
  | some a =>
    have since : toOptional decode [encode a] = (decode [encode a]).map some := by
      cases hj : encode a with
      | null => exact absurd hj (present a)
      | _ => rfl
    simp [Reads, since, each a rfl, Except.map]

end Records

/-! ## Maps -/

/-- A map from texts to documents. -/
structure Dict where
  entries : List (String × Json)
  sorted : entries.Pairwise fun e e' => e.1 < e'.1

namespace Dict

def empty : Dict := ⟨[], .nil⟩

/-- Put an entry in its place, over an entry with the same key. -/
def insertEntry (key : String) (j : Json) : List (String × Json) → List (String × Json)
  | [] => [(key, j)]
  | e :: rest =>
    if key < e.1 then (key, j) :: e :: rest
    else if key = e.1 then (key, j) :: rest
    else e :: insertEntry key j rest

theorem mem_insertEntry {key : String} {j : Json} {entries : List (String × Json)}
    {e : String × Json} (h : e ∈ insertEntry key j entries) : e.1 = key ∨ e ∈ entries := by
  induction entries with
  | nil => simp_all [insertEntry]
  | cons e' rest ih =>
    unfold insertEntry at h
    split_ifs at h with hlt heq
    · rcases List.mem_cons.mp h with rfl | h
      · exact .inl rfl
      · exact .inr h
    · rcases List.mem_cons.mp h with rfl | h
      · exact .inl rfl
      · exact .inr (List.mem_cons_of_mem e' h)
    · rcases List.mem_cons.mp h with rfl | h
      · exact .inr List.mem_cons_self
      · exact (ih h).imp_right (List.mem_cons_of_mem e')

theorem sorted_insertEntry {key : String} {j : Json} {entries : List (String × Json)}
    (h : entries.Pairwise fun e e' => e.1 < e'.1) :
    (insertEntry key j entries).Pairwise fun e e' => e.1 < e'.1 := by
  induction entries with
  | nil => simp [insertEntry]
  | cons e rest ih =>
    obtain ⟨least, hrest⟩ := List.pairwise_cons.mp h
    unfold insertEntry
    split_ifs with hlt heq
    · refine List.pairwise_cons.mpr ⟨fun e' he' => ?_, h⟩
      rcases List.mem_cons.mp he' with rfl | he'
      · exact hlt
      · exact hlt.trans (least e' he')
    · exact List.pairwise_cons.mpr ⟨fun e' he' => heq ▸ least e' he', hrest⟩
    · refine List.pairwise_cons.mpr ⟨fun e' he' => ?_, ih hrest⟩
      rcases mem_insertEntry he' with rfl | he'
      · exact lt_of_le_of_ne (not_lt.mp hlt) (Ne.symm heq)
      · exact least e' he'

def insert (d : Dict) (m : String × Json) : Dict :=
  ⟨insertEntry m.1 m.2 d.entries, sorted_insertEntry d.sorted⟩

/-- The map that the members of an object stand for; a later member counts. -/
def ofMembers (members : List (String × Json)) : Dict := members.foldl insert empty

theorem insertEntry_last {key : String} {j : Json} {entries : List (String × Json)}
    (h : ∀ e ∈ entries, e.1 < key) : insertEntry key j entries = entries ++ [(key, j)] := by
  induction entries with
  | nil => rfl
  | cons e rest ih =>
    obtain ⟨hlt, hrest⟩ := List.forall_mem_cons.mp h
    rw [insertEntry, if_neg hlt.not_gt, if_neg hlt.ne', ih hrest]
    rfl

/-- The entries of a map stand for the map. -/
theorem ofMembers_entries (d : Dict) : ofMembers d.entries = d := by
  -- the entries come in order, so each of them goes to the end
  have grows : ∀ (rest : List (String × Json)) (acc : Dict),
      ((acc.entries ++ rest).Pairwise fun e e' => e.1 < e'.1) →
      (rest.foldl insert acc).entries = acc.entries ++ rest := by
    intro rest
    induction rest with
    | nil => simp
    | cons m rest ih =>
      intro acc sorted
      have last : (acc.insert m).entries = acc.entries ++ [m] :=
        insertEntry_last fun e he =>
          (List.pairwise_append.mp sorted).2.2 e he m List.mem_cons_self
      rw [List.foldl_cons, ih (acc.insert m) (by simpa [last] using sorted), last]
      simp
  have all : (ofMembers d.entries).entries = d.entries := grows d.entries empty d.sorted
  cases d
  cases hd : ofMembers _
  simp_all

end Dict

/-! ## Values of any kind -/

/-- The nearest number of 53 bits. -/
def float (n : ℤ) : ℤ :=
  Rounding.nearest (n / 2 ^ (n.natAbs.log2 - 52)) * 2 ^ (n.natAbs.log2 - 52)

theorem log2_lt_of_small {n : ℤ} (h : n.natAbs < 2 ^ 53) : n.natAbs.log2 < 53 := by
  by_cases hn : n.natAbs = 0
  · simp [hn]
  · exact (Nat.log2_lt hn).mpr h

theorem float_eq_self {n : ℤ} (h : n.natAbs < 2 ^ 53) : float n = n := by
  have small := log2_lt_of_small h
  have exponent : n.natAbs.log2 - 52 = 0 := by omega
  simp [float, exponent, Rounding.nearest_intCast]

mutual

/-- What a document holds when it is read as a value of any kind; `none` when one of its numbers is
out of range. -/
def generic : Json → Option Json
  | .null => some .null
  | .bool b => some (.bool b)
  | .num n => if (float n).natAbs.log2 < 1024 then some (.num (float n)) else none
  | .str s => some (.str s)
  | .arr items => (genericItems items).map .arr
  | .obj members =>
    (genericMembers members).map fun entries => .obj (Dict.ofMembers entries).entries

def genericItems : List Json → Option (List Json)
  | [] => some []
  | j :: items => do return (← generic j) :: (← genericItems items)

def genericMembers : List (String × Json) → Option (List (String × Json))
  | [] => some []
  | (key, j) :: members => do return (key, ← generic j) :: (← genericMembers members)

end

mutual

/-- The numbers have at most 53 bits, and the members of objects are in the order of their names. -/
def Fits : Json → Prop
  | .num n => n.natAbs < 2 ^ 53
  | .arr items => FitsItems items
  | .obj members => (members.Pairwise fun m m' => m.1 < m'.1) ∧ FitsMembers members
  | _ => True

def FitsItems : List Json → Prop
  | [] => True
  | j :: items => Fits j ∧ FitsItems items

def FitsMembers : List (String × Json) → Prop
  | [] => True
  | (_, j) :: members => Fits j ∧ FitsMembers members

end

mutual

/-- A document that fits is read as it is. -/
theorem generic_of_fits (j : Json) (h : Fits j) : generic j = some j := by
  cases j with
  | null | bool | str => rfl
  | num n =>
    have bits : n.natAbs < 2 ^ 53 := h
    have small := log2_lt_of_small bits
    rw [generic, float_eq_self bits, if_pos (by omega)]
  | arr items => rw [generic, genericItems_of_fits items h, Option.map_some]
  | obj members =>
    have entries : (Dict.ofMembers members).entries = members :=
      congrArg Dict.entries (Dict.ofMembers_entries ⟨members, h.1⟩)
    rw [generic, genericMembers_of_fits members h.2, Option.map_some, entries]

theorem genericItems_of_fits (items : List Json) (h : FitsItems items) :
    genericItems items = some items := by
  cases items with
  | nil => rfl
  | cons j items => simp [genericItems, generic_of_fits j h.1, genericItems_of_fits items h.2]

theorem genericMembers_of_fits (members : List (String × Json)) (h : FitsMembers members) :
    genericMembers members = some members := by
  cases members with
  | nil => rfl
  | cons m members =>
    obtain ⟨name, j⟩ := m
    simp [genericMembers, generic_of_fits j h.1, genericMembers_of_fits members h.2]

end

theorem fitsMembers_iff {members : List (String × Json)} :
    FitsMembers members ↔ ∀ m ∈ members, Fits m.2 := by
  induction members with
  | nil => simp [FitsMembers]
  | cons m members ih => simp [FitsMembers, ih]

/-- The values of the map are read as they are. -/
def Dict.Fits (d : Dict) : Prop := FitsMembers d.entries

/-- A map: the entries of all documents together, a later one over an earlier one with the same
key. -/
def toDict (err : ε) (docs : List Json) : Except ε Dict :=
  docs.foldlM (fun d j =>
    match j with
    | .obj members => (genericMembers members).elim (.error err) fun entries =>
      .ok (entries.foldl Dict.insert d)
    | .null => .ok .empty
    | _ => .error err) .empty

/-- A map that is left out when empty. -/
def unlessNoEntries (d : Dict) : Option Json :=
  if d.entries.isEmpty then none else some (.obj d.entries)

theorem reads_unlessNoEntries {err : ε} {d : Dict} (h : d.Fits) :
    Reads (toDict err) d (unlessNoEntries d) := by
  unfold unlessNoEntries
  split_ifs with hd
  · cases d
    simp_all [Reads, toDict, Dict.empty]
    rfl
  · have read : toDict err [.obj d.entries] = .ok (.ofMembers d.entries) := by
      have entries : genericMembers d.entries = some d.entries :=
        genericMembers_of_fits d.entries h
      simp [toDict, entries, Dict.ofMembers]
    rw [Reads, Option.toList_some, read, d.ofMembers_entries]

end Daedalus.Foundation.Json
