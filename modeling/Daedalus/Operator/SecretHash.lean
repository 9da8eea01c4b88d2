import Daedalus.Operator.ModelConfig

/-!
# Which changes of a secret the hash sees

`hashSecretData` writes every entry as `key=value` and a newline, the keys in order. A key cannot
contain either separator, but a value can contain both. An entry may therefore be moved into the
value of the key before it, as one more line of that value, and no byte changes. These moves are
the only changes that go unseen.
-/
namespace Daedalus.Operator.Rotation

open Relation

/-- The characters that Kubernetes allows in the key of a secret. -/
def isKeyChar (c : Char) : Bool := c.isAlphanum || c = '-' || c = '_' || c = '.'

/-- The data of a secret as a map: its entries in the order of their keys. -/
@[ext] structure Secret where
  entries : SecretData
  sorted : entries.Pairwise (·.1 < ·.1)
  keys : ∀ e ∈ entries, ∀ c ∈ e.1.toList, isKeyChar c

/-- What is written for one entry. -/
def line (e : String × List UInt8) : List UInt8 := utf8 e.1 ++ utf8 "=" ++ e.2 ++ utf8 "\n"

/-- What is written to SHA-256 when the map is iterated in this order. -/
def written (data : SecretData) : List UInt8 := (data.insertionSort (·.1 ≤ ·.1)).flatMap line

theorem line_eq (e : String × List UInt8) : line e = utf8 e.1 ++ 61 :: (e.2 ++ [10]) := by
  have eq : utf8 "=" = [61] := by decide
  have newline : utf8 "\n" = [10] := by decide
  simp [line, eq, newline]

/-- The hash depends on the bytes only. -/
theorem hashSecretData_eq (sha256 : List UInt8 → String) (data : SecretData) :
    hashSecretData sha256 data =
      if written data = [] then "" else "sha256:" ++ sha256 (written data) := by
  have empty : data.isEmpty ↔ written data = [] := by
    have length := (List.perm_insertionSort (·.1 ≤ ·.1) data).length_eq
    rw [List.isEmpty_iff, ← List.length_eq_zero_iff, ← length, List.length_eq_zero_iff, written]
    cases List.insertionSort (·.1 ≤ ·.1) data <;> simp [line_eq]
  simp only [hashSecretData, empty]
  rfl

/-! ## Reading back -/

/-- A text is cut at its first separator in one way only. -/
theorem split_at_first {α : Type*} {c : α} {xs ys as bs : List α} (hx : c ∉ xs) (hy : c ∉ ys)
    (h : xs ++ c :: as = ys ++ c :: bs) : xs = ys ∧ as = bs := by
  induction xs generalizing ys with
  | nil =>
    cases ys with
    | nil => exact ⟨rfl, (List.cons.inj h).2⟩
    | cons y ys => exact absurd (List.mem_cons.mpr (.inl (List.cons.inj h).1)) hy
  | cons x xs ih =>
    cases ys with
    | nil => exact absurd (List.mem_cons.mpr (.inl (List.cons.inj h).1.symm)) hx
    | cons y ys =>
      obtain ⟨rfl, tail⟩ := List.cons.inj h
      obtain ⟨rfl, rest⟩ :=
        ih (List.not_mem_of_not_mem_cons hx) (List.not_mem_of_not_mem_cons hy) tail
      exact ⟨rfl, rest⟩

theorem utf8_injective {s t : String} (h : utf8 s = utf8 t) : s = t := by
  have : s.toList.utf8Encode = t.toList.utf8Encode := congrArg List.toByteArray h
  rwa [String.utf8Encode_toList, String.utf8Encode_toList, String.toByteArray_inj] at this

theorem isKeyChar_ascii {c : Char} (h : isKeyChar c) : c.val.toNat ≤ 127 ∧ c.val.toNat ≠ 61 := by
  simp only [isKeyChar, Char.isAlphanum, Char.isAlpha, Char.isUpper, Char.isLower, Char.isDigit,
    Bool.or_eq_true, Bool.and_eq_true, decide_eq_true_eq, UInt32.le_iff_toNat_le, ge_iff_le] at h
  change (((((65 ≤ c.val.toNat ∧ c.val.toNat ≤ 90) ∨ (97 ≤ c.val.toNat ∧ c.val.toNat ≤ 122)) ∨
    (48 ≤ c.val.toNat ∧ c.val.toNat ≤ 57)) ∨ c = '-') ∨ c = '_') ∨ c = '.' at h
  rcases h with (((letter | digit) | rfl) | rfl) | rfl
  · omega
  · omega
  · decide
  · decide
  · decide

/-- The separator does not occur in a key. -/
theorem eq_notMem_key {key : String} (h : ∀ c ∈ key.toList, isKeyChar c) : 61 ∉ utf8 key := by
  intro hmem
  obtain ⟨c, hc, hbyte⟩ := List.mem_flatMap.mp hmem
  obtain ⟨ascii, other⟩ := isKeyChar_ascii (h c hc)
  have single : String.utf8EncodeChar c = [UInt8.ofNat c.val.toNat] := if_pos ascii
  rw [single, List.mem_singleton] at hbyte
  have : (61 : UInt8).toNat = (UInt8.ofNat c.val.toNat).toNat := congrArg UInt8.toNat hbyte
  simp only [UInt8.reduceToNat, UInt8.toNat_ofNat'] at this
  omega

/-! ## Moving entries -/

namespace Secret

/-- The bytes of the map. -/
def bytes (m : Secret) : List UInt8 := m.entries.flatMap line

/-- Whatever the order of iteration, the same bytes are written. -/
theorem written_order (m : Secret) {order : SecretData} (perm : order.Perm m.entries) :
    written order = m.bytes := by
  have sorted : m.entries.Pairwise (·.1 ≤ ·.1) := m.sorted.imp le_of_lt
  have hsort : order.insertionSort (·.1 ≤ ·.1) = m.entries := by
    refine List.Perm.eq_of_pairwise ?_ (List.pairwise_insertionSort _ _) sorted
      ((List.perm_insertionSort _ _).trans perm)
    intro a b ha hb hab hba
    have nodup : (m.entries.map (·.1)).Nodup := by
      rw [List.Nodup, List.pairwise_map]
      exact m.sorted.imp ne_of_lt
    have ha : a ∈ m.entries := perm.mem_iff.mp ((List.perm_insertionSort _ _).mem_iff.mp ha)
    exact List.inj_on_of_nodup_map nodup ha hb (le_antisymm hab hba)
  rw [written, hsort, bytes]

/-- The value that has absorbed the entry after it. -/
def absorbed (v : List UInt8) (e : String × List UInt8) : List UInt8 :=
  v ++ utf8 "\n" ++ utf8 e.1 ++ utf8 "=" ++ e.2

/-- An entry of `m` is moved into the value of the key before it. -/
def Absorbs (m m' : Secret) : Prop :=
  ∃ front k v e back, m.entries = front ++ (k, v) :: e :: back ∧
    m'.entries = front ++ (k, absorbed v e) :: back

/-- The maps differ by moving entries into the values before them and out again. -/
def Connected : Secret → Secret → Prop := EqvGen Absorbs

theorem Absorbs.bytes_eq {m m' : Secret} (h : Absorbs m m') : m.bytes = m'.bytes := by
  obtain ⟨front, k, v, e, back, hm, hm'⟩ := h
  simp [bytes, hm, hm', line, absorbed]

/-- The map after its first two entries have become one. -/
def absorb (m : Secret) {k : String} {v : List UInt8} {e : String × List UInt8} {back : SecretData}
    (h : m.entries = (k, v) :: e :: back) : Secret where
  entries := (k, absorbed v e) :: back
  sorted := by
    have sorted := m.sorted
    rw [h, List.pairwise_cons, List.pairwise_cons] at sorted
    refine List.pairwise_cons.mpr ⟨?_, sorted.2.2⟩
    exact fun e' he' => sorted.1 e' (List.mem_cons_of_mem e he')
  keys := by
    have keys := m.keys
    rw [h] at keys
    intro e' he'
    rcases List.mem_cons.mp he' with rfl | he'
    · exact keys (k, v) (by simp)
    · exact keys e' (by simp [he'])

/-- Every map that is not empty is connected to one with a single entry. -/
theorem exists_single {m : Secret} {k : String} {v : List UInt8} {back : SecretData}
    (h : m.entries = (k, v) :: back) :
    ∃ m' : Secret, ∃ v', Connected m m' ∧ m'.entries = [(k, v')] := by
  induction back generalizing m v with
  | nil => exact ⟨m, v, .refl m, h⟩
  | cons e back ih =>
    obtain ⟨m', v', connected, single⟩ := ih (m := m.absorb h) rfl
    have first : Absorbs m (m.absorb h) := ⟨[], k, v, e, back, h, rfl⟩
    exact ⟨m', v', (EqvGen.rel _ _ first).trans _ _ _ connected, single⟩

/-- With a single entry, the bytes determine the map. -/
theorem single_injective {m m' : Secret} {k k' : String} {v v' : List UInt8}
    (hm : m.entries = [(k, v)]) (hm' : m'.entries = [(k', v')]) (h : m.bytes = m'.bytes) :
    m = m' := by
  have hk : 61 ∉ utf8 k := eq_notMem_key (m.keys (k, v) (by simp [hm]))
  have hk' : 61 ∉ utf8 k' := eq_notMem_key (m'.keys (k', v') (by simp [hm']))
  have h : utf8 k ++ 61 :: (v ++ [10]) = utf8 k' ++ 61 :: (v' ++ [10]) := by
    simpa [bytes, hm, hm', line_eq] using h
  obtain ⟨key, value⟩ := split_at_first hk hk' h
  obtain rfl := utf8_injective key
  obtain rfl := List.append_cancel_right value
  exact Secret.ext (hm.trans hm'.symm)

theorem bytes_eq_nil {m : Secret} : m.bytes = [] ↔ m.entries = [] := by
  cases h : m.entries <;> simp [bytes, h, line_eq]

theorem Connected.bytes_eq {m m' : Secret} (h : Connected m m') : m.bytes = m'.bytes := by
  induction h with
  | rel _ _ h => exact h.bytes_eq
  | refl => rfl
  | symm _ _ _ ih => exact ih.symm
  | trans _ _ _ _ _ ih ih' => exact ih.trans ih'

/-- The bytes written for two maps are the same exactly if the maps are connected. -/
theorem connected_iff {m m' : Secret} : Connected m m' ↔ m.bytes = m'.bytes := by
  constructor
  · exact Connected.bytes_eq
  · intro h
    cases hm : m.entries with
    | nil =>
      have hm' : m'.entries = [] := bytes_eq_nil.mp (h ▸ bytes_eq_nil.mpr hm)
      rw [Secret.ext (hm.trans hm'.symm)]
      exact .refl m'
    | cons e back =>
      cases hm' : m'.entries with
      | nil => simp [bytes_eq_nil.mp (h.trans (bytes_eq_nil.mpr hm'))] at hm
      | cons e' back' =>
        -- Both are connected to a map with a single entry, and the two have the same bytes.
        obtain ⟨n, v, connected, single⟩ := exists_single hm
        obtain ⟨n', v', connected', single'⟩ := exists_single hm'
        have same : n = n' := single_injective single single' <| by
          rw [← Connected.bytes_eq connected, ← Connected.bytes_eq connected', h]
        exact connected.trans _ _ _ (same ▸ connected'.symm _ _)

end Secret

/-! ## What is detected -/

/-- What the hash is for, for two maps iterated in these orders. -/
structure Tracks (m₁ m₂ : Secret) (order₁ order₂ : SecretData) : Prop where
  /-- The same map gives the same bytes, and the same hash. -/
  deterministic : m₁ = m₂ → written order₁ = written order₂ ∧
    ∀ sha256, hashSecretData sha256 order₁ = hashSecretData sha256 order₂
  /-- Different maps give different bytes, and different hashes unless SHA-256 has a collision. -/
  detected : m₁ ≠ m₂ → written order₁ ≠ written order₂ ∧
    ∀ sha256, Function.Injective sha256 →
      hashSecretData sha256 order₁ ≠ hashSecretData sha256 order₂

/-- For a digest without collisions the hash is as good as the bytes. -/
theorem hashSecretData_injective {sha256 : List UInt8 → String} (inj : Function.Injective sha256)
    {data₁ data₂ : SecretData} (h : hashSecretData sha256 data₁ = hashSecretData sha256 data₂) :
    written data₁ = written data₂ := by
  rw [hashSecretData_eq, hashSecretData_eq] at h
  split_ifs at h with h₁ h₂ h₂
  · rw [h₁, h₂]
  · simp at h
  · simp at h
  · apply inj
    simpa using h

/-- A change of the secret is detected exactly if it is not made of moves of entries into the values
before them and out again. -/
theorem hash_tracks_iff {m₁ m₂ : Secret} {order₁ order₂ : SecretData}
    (perm₁ : order₁.Perm m₁.entries) (perm₂ : order₂.Perm m₂.entries) :
    Tracks m₁ m₂ order₁ order₂ ↔ m₁ = m₂ ∨ ¬ m₁.Connected m₂ := by
  have hbytes : written order₁ = written order₂ ↔ m₁.Connected m₂ := by
    rw [m₁.written_order perm₁, m₂.written_order perm₂, Secret.connected_iff]
  constructor
  · intro tracks
    by_cases same : m₁ = m₂
    · exact .inl same
    · refine .inr fun connected => ?_
      exact (tracks.detected same).1 (hbytes.mpr connected)
  · intro h
    constructor
    · rintro rfl
      have same : written order₁ = written order₂ := hbytes.mpr (.refl m₁)
      exact ⟨same, fun sha256 => by rw [hashSecretData_eq, hashSecretData_eq, same]⟩
    · intro differ
      have apart : written order₁ ≠ written order₂ := fun e => (h.resolve_left differ) (hbytes.mp e)
      exact ⟨apart, fun sha256 inj e => apart (hashSecretData_injective inj e)⟩

/-- Secrets whose values are single lines are all told apart: no move leads from one to another. -/
theorem eq_of_connected_of_lines {m₁ m₂ : Secret} (lines₁ : ∀ e ∈ m₁.entries, 10 ∉ e.2)
    (lines₂ : ∀ e ∈ m₂.entries, 10 ∉ e.2) (h : m₁.Connected m₂) : m₁ = m₂ := by
  have injective : ∀ l₁ l₂ : SecretData,
      (∀ e ∈ l₁, 61 ∉ utf8 e.1 ∧ 10 ∉ e.2) → (∀ e ∈ l₂, 61 ∉ utf8 e.1 ∧ 10 ∉ e.2) →
      l₁.flatMap line = l₂.flatMap line → l₁ = l₂ := by
    intro l₁
    induction l₁ with
    | nil =>
      intro l₂ _ _ h
      cases l₂ with
      | nil => rfl
      | cons e l₂ => simp [line_eq] at h
    | cons e l₁ ih =>
      intro l₂ h₁ h₂ h
      cases l₂ with
      | nil => simp [line_eq] at h
      | cons e' l₂ =>
        rw [List.forall_mem_cons] at h₁ h₂
        simp only [List.flatMap_cons, line_eq, List.append_assoc, List.cons_append,
          List.nil_append] at h
        -- The key ends at the first equals sign, and the value at the first newline after it.
        obtain ⟨key, h⟩ := split_at_first h₁.1.1 h₂.1.1 h
        obtain ⟨value, h⟩ := split_at_first h₁.1.2 h₂.1.2 h
        rw [ih l₂ h₁.2 h₂.2 h, Prod.ext (utf8_injective key) value]
  apply Secret.ext
  refine injective _ _ ?_ ?_ (Secret.connected_iff.mp h)
  · exact fun e he => ⟨eq_notMem_key (m₁.keys e he), lines₁ e he⟩
  · exact fun e he => ⟨eq_notMem_key (m₂.keys e he), lines₂ e he⟩

/-- Two keys, -/
def twoKeys : Secret where
  entries := [("a", utf8 "1"), ("b", utf8 "2")]
  sorted := by decide
  keys := by simp [isKeyChar, Char.isAlphanum, Char.isAlpha, Char.isLower]

/-- and one key whose value has the second one in it. -/
def oneKey : Secret where
  entries := [("a", utf8 "1\nb=2")]
  sorted := by decide
  keys := by simp [isKeyChar, Char.isAlphanum, Char.isAlpha, Char.isLower]

theorem hash_tracks_iff_twoKeys :
    Tracks twoKeys oneKey [("b", utf8 "2"), ("a", utf8 "1")] oneKey.entries ↔
      twoKeys = oneKey ∨ ¬ twoKeys.Connected oneKey :=
  hash_tracks_iff (List.Perm.swap _ _ _) (List.Perm.refl _)

/-- The second key disappears and the hash stays the same. -/
theorem change_undetected :
    twoKeys ≠ oneKey ∧ written twoKeys.entries = written oneKey.entries ∧
      ∀ sha256, hashSecretData sha256 twoKeys.entries = hashSecretData sha256 oneKey.entries := by
  have same : written twoKeys.entries = written oneKey.entries := by decide
  refine ⟨?_, same, fun sha256 => by rw [hashSecretData_eq, hashSecretData_eq, same]⟩
  intro e
  have : twoKeys.entries.length = oneKey.entries.length := congrArg (·.entries.length) e
  simp [twoKeys, oneKey] at this

end Daedalus.Operator.Rotation
