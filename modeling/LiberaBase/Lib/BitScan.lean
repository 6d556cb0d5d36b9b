import Mathlib.Data.List.Range
import Mathlib.Data.Nat.Find
import Mathlib.Tactic.SplitIfs

/-!
# Scanning the set bits of a word

The loop visits the set bits of a word from the least significant one on.  A
one-bit mask and its index travel upwards together; a visited bit is cleared, and
the loop ends when the word has no bit of the scanned field left:

    while (x & field) { while (!(x & m)) { i++; m <<= 1; }  x &= ~m;  body(i); }

Both loops are given fuel.  `scan_eq` says that the fuel is enough, and that the
body runs once for each set bit of the field, in ascending order.
-/

namespace BitScan

variable {w : ℕ} {σ : Type*}

/-- The inner loop: move the mask up to the next set bit. -/
def seek : ℕ → BitVec w → BitVec w → ℕ → Option (BitVec w × ℕ)
  | 0, _, _, _ => none
  | fuel + 1, x, m, i => if x &&& m = 0 then seek fuel x (m <<< 1) (i + 1) else some (m, i)

/-- The outer loop over the bits of `field`. -/
def scan (field : BitVec w) (body : σ → ℕ → σ) (inner : ℕ) :
    ℕ → σ → BitVec w → BitVec w → ℕ → Option σ
  | 0, _, _, _, _ => none
  | fuel + 1, s, x, m, i =>
    if x &&& field = 0 then some s
    else match seek inner x m i with
      | none => none
      | some (m', i') => scan field body inner fuel (body s i') (x &&& ~~~m') m' i'

/-- The outer loop when the mask starts over in every round and the index goes on:

    while (x & field) { m = zero; while (!(x & m)) { i++; m <<= 1; }  body(i);  x &= ~m; }
-/
def rescan (field zero : BitVec w) (body : σ → ℕ → σ) (inner : ℕ) :
    ℕ → σ → BitVec w → ℕ → Option σ
  | 0, _, _, _ => none
  | fuel + 1, s, x, i =>
    if x &&& field = 0 then some s
    else match seek inner x zero i with
      | none => none
      | some (m', i') => rescan field zero body inner fuel (body s i') (x &&& ~~~m') i'

/-- The indices, from `i` on and below `n`, of the bits set in the field that
starts at bit `lo`. -/
def setBits (lo n i : ℕ) (x : BitVec w) : List ℕ :=
  (List.range' i (n - i)).filter fun k ↦ x.getLsbD (lo + k)

variable {x : BitVec w} {lo n i k : ℕ}

theorem mem_setBits : k ∈ setBits lo n i x ↔ i ≤ k ∧ k < n ∧ x.getLsbD (lo + k) = true := by
  simp only [setBits, List.mem_filter, List.mem_range'_1]
  constructor
  · rintro ⟨⟨h₁, h₂⟩, h₃⟩
    exact ⟨h₁, by omega, h₃⟩
  · rintro ⟨h₁, h₂, h₃⟩
    exact ⟨⟨h₁, by omega⟩, h₃⟩

theorem pairwise_setBits : (setBits lo n i x).Pairwise (· < ·) :=
  (List.pairwise_lt_range' 1).filter _

theorem length_setBits_le : (setBits lo n i x).length ≤ n - i :=
  (List.length_filter_le _ _).trans_eq List.length_range'

theorem setBits_cons (hik : i ≤ k) (hkn : k < n) (hlo : lo + n ≤ w)
    (hbit : x.getLsbD (lo + k) = true)
    (hleast : ∀ j, i ≤ j → j < k → x.getLsbD (lo + j) = false) :
    setBits lo n i x = k :: setBits lo n k (x &&& ~~~BitVec.twoPow w (lo + k)) := by
  have hsplit : List.range' i (n - i) =
      List.range' i (k - i) ++ k :: List.range' (k + 1) (n - (k + 1)) := by
    rw [← List.range'_succ, show n - i = (k - i) + (n - (k + 1) + 1) by omega,
      ← List.range'_append_1, show i + (k - i) = k by omega]
  have hbelow : (List.range' i (k - i)).filter (fun j ↦ x.getLsbD (lo + j)) = [] := by
    rw [List.filter_eq_nil_iff]
    intro j hj
    rw [List.mem_range'_1] at hj
    simp [hleast j hj.1 (by omega)]
  have hcleared (j : ℕ) (hj : j < n) : (x &&& ~~~BitVec.twoPow w (lo + k)).getLsbD (lo + j) =
      (x.getLsbD (lo + j) && decide (j ≠ k)) := by
    have hjw : lo + j < w := by omega
    simp only [BitVec.getLsbD_and, BitVec.getLsbD_not, BitVec.getLsbD_twoPow, hjw, decide_true,
      Bool.true_and]
    congr 1
    by_cases hjk : j = k
    · simp [hjk, show lo + k < w by omega]
    · simp [hjk, Ne.symm hjk]
  rw [setBits, hsplit, List.filter_append, hbelow, List.nil_append, List.filter_cons, if_pos hbit]
  congr 1
  rw [setBits, show n - k = n - (k + 1) + 1 by omega, List.range'_succ, List.filter_cons,
    if_neg (by simp [hcleared k hkn])]
  refine List.filter_congr fun j hj ↦ ?_
  rw [List.mem_range'_1] at hj
  simp [hcleared j (by omega), show j ≠ k by omega]

theorem twoPow_succ (w j : ℕ) : BitVec.twoPow w j <<< 1 = BitVec.twoPow w (j + 1) := by
  rw [BitVec.twoPow_eq, BitVec.twoPow_eq, BitVec.shiftLeft_add]

theorem and_twoPow_eq_zero {j : ℕ} (hj : j < w) :
    x &&& BitVec.twoPow w j = 0 ↔ x.getLsbD j = false := by
  rw [BitVec.and_twoPow]
  split_ifs with h
  · simp only [h, Bool.true_eq_false, iff_false]
    intro hzero
    have hbit := congrArg (fun y ↦ BitVec.getLsbD y j) hzero
    simp [hj] at hbit
  · simpa using h

theorem seek_eq {inner : ℕ} (hik : i ≤ k) (hkw : lo + k < w) (hfuel : k - i < inner)
    (hbit : x.getLsbD (lo + k) = true)
    (hleast : ∀ j, i ≤ j → j < k → x.getLsbD (lo + j) = false) :
    seek inner x (BitVec.twoPow w (lo + i)) i = some (BitVec.twoPow w (lo + k), k) := by
  induction inner generalizing i with
  | zero => omega
  | succ inner ih =>
      rw [seek]
      rcases Nat.eq_or_lt_of_le hik with rfl | hlt
      · rw [if_neg (by rw [and_twoPow_eq_zero hkw]; simp [hbit])]
      · rw [if_pos (by rw [and_twoPow_eq_zero (by omega)]; exact hleast i le_rfl hlt),
          twoPow_succ]
        exact ih hlt (by omega) fun j hj₁ hj₂ ↦ hleast j (by omega) hj₂

/-- The field from bit `lo` on, `n` bits wide. -/
structure IsField (field : BitVec w) (lo n : ℕ) : Prop where
  le_width : lo + n ≤ w
  bit : ∀ j, field.getLsbD j = (decide (lo ≤ j) && decide (j < lo + n))

theorem and_field_eq_zero {field : BitVec w} (hf : IsField field lo n)
    (hclear : ∀ j < i, x.getLsbD (lo + j) = false) :
    x &&& field = 0 ↔ setBits lo n i x = [] := by
  rw [List.eq_nil_iff_forall_not_mem]
  simp only [mem_setBits]
  constructor
  · rintro hzero k ⟨-, hkn, hbit⟩
    have h := congrArg (fun y ↦ BitVec.getLsbD y (lo + k)) hzero
    simp [hf.bit, hbit, hkn] at h
  · intro hnone
    refine BitVec.eq_of_getLsbD_eq fun j _ ↦ ?_
    simp only [BitVec.getLsbD_and, hf.bit, BitVec.ofNat_eq_ofNat, BitVec.getLsbD_zero]
    by_cases hj : lo ≤ j ∧ j < lo + n
    · have hbit : x.getLsbD j = false := by
        have hrest := hnone (j - lo)
        rw [show lo + (j - lo) = j by omega] at hrest
        by_cases hlt : j - lo < i
        · simpa [show lo + (j - lo) = j by omega] using hclear (j - lo) hlt
        · simpa [show i ≤ j - lo by omega, show j - lo < n by omega] using hrest
      simp [hbit]
    · rw [show (decide (lo ≤ j) && decide (j < lo + n)) = false by simpa using hj, Bool.and_false]

theorem exists_least (hne : setBits lo n i x ≠ []) : ∃ k, i ≤ k ∧ k < n ∧
    x.getLsbD (lo + k) = true ∧ ∀ j, i ≤ j → j < k → x.getLsbD (lo + j) = false := by
  have hex : ∃ k, i ≤ k ∧ k < n ∧ x.getLsbD (lo + k) = true := by
    obtain ⟨k, hk⟩ := List.exists_mem_of_ne_nil _ hne
    exact ⟨k, mem_setBits.mp hk⟩
  classical
  obtain ⟨hik, hkn, hbit⟩ := Nat.find_spec hex
  refine ⟨Nat.find hex, hik, hkn, hbit, ?_⟩
  intro j hij hj
  have hmin := Nat.find_min hex hj
  simpa [hij, show j < n by omega] using hmin

/-- **The scan visits the set bits in ascending order.**  With fuel for one round
more than there are set bits, and for the width of the field in the inner loop,
the loops end, and have run the body for each set bit. -/
theorem scan_eq {field : BitVec w} {body : σ → ℕ → σ} {inner fuel : ℕ} {s : σ}
    (hf : IsField field lo n) (hclear : ∀ j < i, x.getLsbD (lo + j) = false)
    (hinner : n ≤ inner) (hfuel : (setBits lo n i x).length < fuel) :
    scan field body inner fuel s x (BitVec.twoPow w (lo + i)) i =
      some ((setBits lo n i x).foldl body s) := by
  induction fuel generalizing s x i with
  | zero => omega
  | succ fuel ih =>
      rw [scan]
      by_cases hnil : setBits lo n i x = []
      · rw [if_pos ((and_field_eq_zero hf hclear).mpr hnil), hnil]
        rfl
      · rw [if_neg fun h ↦ hnil ((and_field_eq_zero hf hclear).mp h)]
        obtain ⟨k, hik, hkn, hbit, hleast⟩ := exists_least hnil
        have hle := hf.le_width
        have hcons := setBits_cons hik hkn hle hbit hleast
        rw [seek_eq hik (by omega) (by omega) hbit hleast]
        simp only
        rw [hcons, List.length_cons] at hfuel
        rw [hcons, List.foldl_cons]
        refine ih (fun j hj ↦ ?_) (by omega)
        have hbelow : x.getLsbD (lo + j) = false := by
          by_cases hji : j < i
          · exact hclear j hji
          · exact hleast j (by omega) hj
        simp [BitVec.getLsbD_and, hbelow]

/-- The mask does not depend on the index it is counted with. -/
theorem seek_add {inner : ℕ} {m : BitVec w} (c : ℕ) :
    seek inner x m (i + c) = (seek inner x m i).map fun r ↦ (r.1, r.2 + c) := by
  induction inner generalizing m i with
  | zero => rfl
  | succ inner ih =>
      rw [seek, seek]
      split_ifs with hzero
      · rw [show i + c + 1 = i + 1 + c by omega, ih]
      · rfl

theorem setBits_of_clear (hkn : k ≤ n) (hclear : ∀ j < k, x.getLsbD (lo + j) = false) :
    setBits lo n 0 x = setBits lo n k x := by
  have hsplit : List.range' 0 (n - 0) = List.range' 0 k ++ List.range' k (n - k) := by
    have happ := @List.range'_append_1 0 k (n - k)
    rw [Nat.zero_add, Nat.add_sub_cancel' hkn] at happ
    simpa using happ.symm
  have hbelow : (List.range' 0 k).filter (fun j ↦ x.getLsbD (lo + j)) = [] := by
    rw [List.filter_eq_nil_iff]
    intro j hj
    rw [List.mem_range'_1] at hj
    simp [hclear j (by omega)]
  rw [setBits, hsplit, List.filter_append, hbelow, List.nil_append, setBits]

/-- The index after each round, when it goes on from `i` by the bits found. -/
def runningSums : ℕ → List ℕ → List ℕ
  | _, [] => []
  | i, k :: ks => (i + k) :: runningSums (i + k) ks

/-- A scan whose mask starts over ends as well, but its index is the sum of the bits found so
far. -/
theorem rescan_eq {field : BitVec w} {body : σ → ℕ → σ} {inner fuel : ℕ} {s : σ}
    (hf : IsField field lo n) (hinner : n ≤ inner) (hfuel : (setBits lo n 0 x).length < fuel) :
    rescan field (BitVec.twoPow w lo) body inner fuel s x i =
      some ((runningSums i (setBits lo n 0 x)).foldl body s) := by
  induction fuel generalizing s x i with
  | zero => omega
  | succ fuel ih =>
      rw [rescan]
      have hclear : ∀ j < 0, x.getLsbD (lo + j) = false := by
        intro j hj
        omega
      by_cases hnil : setBits lo n 0 x = []
      · rw [if_pos ((and_field_eq_zero hf hclear).mpr hnil), hnil]
        rfl
      · rw [if_neg fun h ↦ hnil ((and_field_eq_zero hf hclear).mp h)]
        obtain ⟨k, hk₀, hkn, hbit, hleast⟩ := exists_least hnil
        have hle := hf.le_width
        have hcons := setBits_cons hk₀ hkn hle hbit hleast
        have hseek := seek_eq hk₀ (by omega) (show k - 0 < inner by omega) hbit hleast
        rw [Nat.add_zero] at hseek
        have hfound : seek inner x (BitVec.twoPow w lo) i =
            some (BitVec.twoPow w (lo + k), k + i) := by
          rw [show i = 0 + i by omega, seek_add, hseek]
          simp
        have hrest : setBits lo n 0 (x &&& ~~~BitVec.twoPow w (lo + k)) =
            setBits lo n k (x &&& ~~~BitVec.twoPow w (lo + k)) := by
          apply setBits_of_clear hkn.le
          intro j hj
          simp [BitVec.getLsbD_and, hleast j (Nat.zero_le j) hj]
        rw [hfound, hcons, ← hrest]
        rw [hcons, List.length_cons, ← hrest] at hfuel
        simp only [runningSums, List.foldl_cons]
        rw [show k + i = i + k by omega]
        exact ih (by omega)

end BitScan
