import Daedalus.Foundation.Json

/-!
# Documents compared field by field

What a reader of a document finds at the end of a path of member names and list positions. A member
that is missing reads as `null`, and `null`, the empty text, the empty list and the empty object say
nothing; so documents that differ in such members, or in the order of members, look the same. Some
texts may be compared by what they mean.
-/
namespace Daedalus.Foundation.Json

inductive Step where
  | member (name : String)
  | item (i : ℕ)
  deriving DecidableEq, Repr

/-- What a document says by itself, without the documents inside. -/
inductive Leaf where
  | text (s : String)
  | number (n : ℤ)
  | flag (b : Bool)
  | length (n : ℕ)
  deriving DecidableEq, Repr

def leaf : Json → Option Leaf
  | .str s => if s = "" then none else some (.text s)
  | .num n => some (.number n)
  | .bool b => some (.flag b)
  | .arr items => if items.isEmpty then none else some (.length items.length)
  | .null => none
  | .obj _ => none

def get : Json → String → Json
  | .obj members, name => (members.lookup name).getD .null
  | _, _ => .null

def item : Json → ℕ → Json
  | .arr items, i => items[i]?.getD .null
  | _, _ => .null

def into (j : Json) : Step → Json
  | .member name => j.get name
  | .item i => j.item i

/-- What is found at the end of a path. -/
def view (j : Json) (path : List Step) : Option Leaf := (path.foldl into j).leaf

/-- The same leaf, where texts are compared by `same`. -/
def LeafAlike (same : String → String → Prop) : Option Leaf → Option Leaf → Prop
  | some (.text s), some (.text t) => same s t
  | a, b => a = b

/-- The two documents say the same at the end of every path. -/
def Alike (same : List Step → String → String → Prop) (a b : Json) : Prop :=
  ∀ path, LeafAlike (same path) (a.view path) (b.view path)

section Alike

variable {same : List Step → String → String → Prop} {a b : Json}

theorem LeafAlike.refl {same : String → String → Prop} (h : ∀ s, same s s) (x : Option Leaf) :
    LeafAlike same x x := by
  unfold LeafAlike
  split
  · exact h _
  · rfl

theorem Alike.refl (h : ∀ path s, same path s s) (a : Json) : Alike same a a :=
  fun path => LeafAlike.refl (h path) _

@[simp] theorem Alike.rfl_eq : Alike (fun _ => Eq) a a := Alike.refl (fun _ _ => rfl) a

/-- Compare what the documents say by themselves, and what is inside. -/
theorem alike_of_into (here : LeafAlike (same []) a.leaf b.leaf)
    (inside : ∀ s, Alike (fun path => same (s :: path)) (a.into s) (b.into s)) :
    Alike same a b := by
  intro path
  cases path with
  | nil => exact here
  | cons s path => exact inside s path

@[simp] theorem view_null (path : List Step) : view .null path = none := by
  induction path with
  | nil => rfl
  | cons s path ih => cases s <;> exact ih

theorem alike_null : Alike same .null .null := by
  intro path
  rw [view_null]
  exact rfl

theorem lookup_cons_ite {name key : String} {j : Json} {members : List (String × Json)} :
    ((name, j) :: members).lookup key = if key = name then some j else members.lookup key := by
  by_cases h : key = name
  · simp [h]
  · rw [List.lookup_cons, beq_eq_false_iff_ne.mpr h]
    simp [h]

/-- An object, or the lack of one. -/
def isRecord : Json → Bool
  | .obj _ => true
  | .null => true
  | _ => false

/-- Objects are compared member by member. -/
theorem alike_of_get (ha : a.isRecord) (hb : b.isRecord)
    (each : ∀ name, Alike (fun path => same (.member name :: path)) (a.get name) (b.get name)) :
    Alike same a b := by
  have plain {j : Json} (h : j.isRecord) : j.leaf = none ∧ ∀ i, j.item i = .null := by
    cases j <;> first | exact ⟨rfl, fun _ => rfl⟩ | cases h
  refine alike_of_into ?_ ?_
  · rw [(plain ha).1, (plain hb).1]
    exact rfl
  · rintro (name | i)
    · exact each name
    · change Alike _ (a.item i) (b.item i)
      rw [(plain ha).2, (plain hb).2]
      exact alike_null

/-- It is enough to compare the members that one of the two objects may have. -/
theorem alike_of_names (names : List String) (ha : a.isRecord) (hb : b.isRecord)
    (others : ∀ name, name ∉ names → a.get name = .null ∧ b.get name = .null)
    (each : names.Forall fun name =>
      Alike (fun path => same (.member name :: path)) (a.get name) (b.get name)) :
    Alike same a b := by
  refine alike_of_get ha hb fun name => ?_
  by_cases h : name ∈ names
  · exact List.forall_iff_forall_mem.mp each name h
  · rw [(others name h).1, (others name h).2]
    exact alike_null

/-- Lists are compared position by position. -/
theorem alike_arr {xs ys : List Json} (length : xs.length = ys.length)
    (each : ∀ i x y, xs[i]? = some x → ys[i]? = some y →
      Alike (fun path => same (.item i :: path)) x y) :
    Alike same (.arr xs) (.arr ys) := by
  refine alike_of_into ?_ ?_
  · have : leaf (.arr xs) = leaf (.arr ys) := by
      simp [leaf, length, ← List.length_eq_zero_iff]
    rw [this]
    cases ys <;> exact rfl
  · rintro (name | i)
    · exact alike_null
    · change Alike _ (item (.arr xs) i) (item (.arr ys) i)
      by_cases h : i < xs.length
      · have h' : i < ys.length := length ▸ h
        have := each i _ _ (List.getElem?_eq_getElem h) (List.getElem?_eq_getElem h')
        simpa [item, h, h'] using this
      · have h' : ¬ i < ys.length := length ▸ h
        simpa [item, h, h'] using alike_null

/-- Where texts are compared alike at every position, so are lists. -/
theorem alike_arr_of_forall₂ (uniform : ∀ i, (fun path => same (.item i :: path)) = same)
    {xs ys : List Json} (h : List.Forall₂ (Alike same) xs ys) :
    Alike same (.arr xs) (.arr ys) := by
  refine alike_arr h.length_eq fun i x y hx hy => ?_
  obtain ⟨hi, rfl⟩ := List.getElem?_eq_some_iff.mp hx
  obtain ⟨hi', rfl⟩ := List.getElem?_eq_some_iff.mp hy
  rw [uniform i]
  exact h.get hi hi'

/-! ## Members that are left out

Whether an empty text, list or object is written or left out makes no difference. -/

/-- The text of a member that is left out when the text is empty. -/
def ofText (s : String) : Json := if s = "" then .null else .str s

/-- The object of a member that is left out when the object is empty. -/
def ofMembers (members : List (String × Json)) : Json :=
  if members = [] then .null else .obj members

@[simp] theorem getD_omitEmpty (s : String) :
    (if s = "" then none else some (str s)).getD .null = ofText s := by
  unfold ofText
  split_ifs <;> rfl

@[simp] theorem getD_omitNil {α : Type} (encode : α → Json) (xs : List α) :
    (if xs = [] then none else some (arr (xs.map encode))).getD .null =
      ofSlice (xs.map encode) := by
  cases xs <;> rfl

@[simp] theorem getD_omitNoMembers (members : List (String × Json)) :
    (if members = [] then none else some (obj members)).getD .null = ofMembers members := by
  cases members <;> rfl

/-- A document that says nothing, and nothing inside, is as good as none. -/
theorem view_eq_null (here : a.leaf = none) (inside : ∀ s, a.into s = .null) :
    a.view = (null : Json).view := by
  funext path
  cases path with
  | nil => exact here
  | cons s path =>
    change (a.into s).view path = _
    rw [inside s, view_null, view_null]

theorem view_ofText (s : String) : (ofText s).view = (str s).view := by
  unfold ofText
  split_ifs with hs
  · subst hs
    exact (view_eq_null rfl (by rintro (_ | _) <;> rfl)).symm
  · rfl

theorem view_ofSlice (items : List Json) : (ofSlice items).view = (arr items).view := by
  cases items with
  | nil => exact (view_eq_null rfl (by rintro (_ | _) <;> rfl)).symm
  | cons j items => rfl

theorem view_ofMembers (members : List (String × Json)) :
    (ofMembers members).view = (obj members).view := by
  cases members with
  | nil => exact (view_eq_null rfl (by rintro (_ | _) <;> rfl)).symm
  | cons m members => rfl

theorem alike_ofText (h : ∀ path s, same path s s) (s : String) :
    Alike same (ofText s) (.str s) := by
  unfold Alike
  rw [view_ofText]
  exact Alike.refl h _

theorem alike_ofSlice {xs ys : List Json} (h : Alike same (.arr xs) (.arr ys)) :
    Alike same (ofSlice xs) (ofSlice ys) := by
  unfold Alike
  rw [view_ofSlice, view_ofSlice]
  exact h

theorem alike_ofMembers {xs ys : List (String × Json)} (h : Alike same (.obj xs) (.obj ys)) :
    Alike same (ofMembers xs) (ofMembers ys) := by
  unfold Alike
  rw [view_ofMembers, view_ofMembers]
  exact h

end Alike

end Daedalus.Foundation.Json
