import NeuralMesh.Js.NumberText
import Mathlib.Data.List.DropRight

/-! White space and `String.prototype.trim`. A trimmed text is the only tight
text that differs from the original by blanks at both ends. -/
namespace NeuralMesh.Js

/-- `WhiteSpace` and `LineTerminator`, the set that `\s` and `trim` share. -/
def isSpace (c : Char) : Bool :=
  let n := c.toNat
  (9 ≤ n && n ≤ 13) || n == 32 || n == 0xA0 || n == 0x1680 || (0x2000 ≤ n && n ≤ 0x200A) ||
    n == 0x2028 || n == 0x2029 || n == 0x202F || n == 0x205F || n == 0x3000 || n == 0xFEFF

def trim (t : Text) : Text := (t.dropWhile isSpace).rdropWhile isSpace

def Blank (t : Text) : Prop := ∀ c ∈ t, isSpace c = true

/-- No white space at either end. -/
structure Tight (t : Text) : Prop where
  first : ∀ c, t.head? = some c → isSpace c = false
  last : ∀ c, t.getLast? = some c → isSpace c = false

theorem blank_nil : Blank [] := by simp [Blank]

theorem Blank.append {a b : Text} (left : Blank a) (right : Blank b) : Blank (a ++ b) :=
  List.forall_mem_append.mpr ⟨left, right⟩

theorem tight_nil : Tight [] := ⟨by simp, by simp⟩

theorem rdropWhile_exact {p : α → Bool} {body rest : List α} (inside : ∀ c ∈ rest, p c = true)
    (boundary : ∀ c, body.getLast? = some c → p c = false) :
    (body ++ rest).rdropWhile p = body := by
  have taken := @span_exact _ p rest.reverse body.reverse
    (fun c member => inside c (List.mem_reverse.mp member))
    (fun c head => boundary c (by rwa [List.head?_reverse] at head))
  rw [List.rdropWhile, List.reverse_append, taken.2, List.reverse_reverse]

/-- Trimming removes exactly the blanks around a tight text. -/
theorem trim_unique {a u b : Text} (left : Blank a) (right : Blank b) (tight : Tight u) :
    trim (a ++ (u ++ b)) = u := by
  cases u with
  | nil =>
    have empty := (@span_exact _ isSpace (a ++ b) []
      (left.append right) (by simp)).2
    rw [List.append_nil] at empty
    rw [trim, List.nil_append, empty]
    rfl
  | cons c u =>
    have dropped := (@span_exact _ isSpace a (c :: u ++ b) left
      (fun d head => tight.first d (by simpa using head))).2
    rw [trim, dropped, rdropWhile_exact right tight.last]

theorem trim_tight (t : Text) : Tight (trim t) := by
  constructor
  · intro c head
    have initial : (t.dropWhile isSpace).head? = some c := by
      obtain ⟨after, whole⟩ := List.rdropWhile_prefix isSpace (l := t.dropWhile isSpace)
      cases text : trim t with
      | nil => simp [text] at head
      | cons d ds =>
        rw [text, List.head?_cons] at head
        rw [← whole, ← trim, text, List.cons_append, List.head?_cons, head]
    simpa [initial] using List.head?_dropWhile_not isSpace t
  · intro c last
    by_contra space
    have nonempty : trim t ≠ [] := by
      intro empty
      simp [empty] at last
    have stop : ¬ isSpace ((trim t).getLast nonempty) = true :=
      List.rdropWhile_last_not isSpace (t.dropWhile isSpace) nonempty
    rw [List.getLast?_eq_some_getLast nonempty, Option.some.injEq] at last
    rw [last] at stop
    exact stop (by simpa using space)

theorem trim_decompose (t : Text) : ∃ a b, Blank a ∧ Blank b ∧ t = a ++ (trim t ++ b) := by
  refine ⟨t.takeWhile isSpace, (t.dropWhile isSpace).rtakeWhile isSpace,
    fun c member => List.mem_takeWhile_imp member, fun c member => List.mem_rtakeWhile_imp member,
    ?_⟩
  rw [trim, List.rdropWhile_append_rtakeWhile, List.takeWhile_append_dropWhile]

theorem trim_length_le (t : Text) : (trim t).length ≤ t.length := by
  obtain ⟨a, b, _, _, whole⟩ := trim_decompose t
  have length := congrArg List.length whole
  rw [List.length_append, List.length_append] at length
  omega

theorem trim_of_tight {t : Text} (tight : Tight t) : trim t = t := by
  have unique := trim_unique blank_nil blank_nil tight
  rwa [List.nil_append, List.append_nil] at unique

@[simp] theorem trim_trim (t : Text) : trim (trim t) = trim t := trim_of_tight (trim_tight t)

theorem trim_blank {t : Text} (blank : Blank t) : trim t = [] := by
  have unique := trim_unique blank blank_nil tight_nil
  rwa [List.nil_append, List.append_nil] at unique

theorem trim_around {a b : Text} (left : Blank a) (t : Text) (right : Blank b) :
    trim (a ++ (t ++ b)) = trim t := by
  obtain ⟨c, d, before, after, whole⟩ := trim_decompose t
  have grouped : a ++ (t ++ b) = (a ++ c) ++ (trim t ++ (d ++ b)) := by
    conv_lhs => rw [whole]
    simp only [List.append_assoc]
  rw [grouped, trim_unique (left.append before) (after.append right) (trim_tight t)]

theorem trim_eq_nil {t : Text} : trim t = [] ↔ Blank t := by
  constructor
  · intro empty
    obtain ⟨a, b, left, right, whole⟩ := trim_decompose t
    rw [whole, empty, List.nil_append]
    exact left.append right
  · exact trim_blank

/-- A part that starts and ends with visible characters stays within the trimmed
text, with what visibly surrounds it. -/
theorem trim_within {v : Text} (a b : Text) (tight : Tight v) (nonempty : v ≠ []) :
    trim (a ++ (v ++ b)) = a.dropWhile isSpace ++ (v ++ b.rdropWhile isSpace) := by
  have middle : Tight (a.dropWhile isSpace ++ (v ++ b.rdropWhile isSpace)) := by
    constructor
    · intro c head
      cases front : a.dropWhile isSpace with
      | nil =>
        rw [front, List.nil_append, List.head?_append_of_ne_nil _ nonempty] at head
        exact tight.first c head
      | cons d ds =>
        have visible := List.head?_dropWhile_not isSpace a
        rw [front, List.cons_append, List.head?_cons, Option.some.injEq] at head
        rw [front, List.head?_cons] at visible
        subst head
        simpa using visible
    · intro c last
      by_cases back : b.rdropWhile isSpace = []
      · rw [back, List.append_nil, List.getLast?_append_of_ne_nil _ nonempty] at last
        exact tight.last c last
      · have visible := List.rdropWhile_last_not isSpace b back
        rw [← List.append_assoc, List.getLast?_append_of_ne_nil _ back,
          List.getLast?_eq_some_getLast back, Option.some.injEq] at last
        rw [last] at visible
        simpa using visible
  have whole : a ++ (v ++ b) = a.takeWhile isSpace ++
      ((a.dropWhile isSpace ++ (v ++ b.rdropWhile isSpace)) ++ b.rtakeWhile isSpace) := by
    simp only [List.append_assoc, List.rdropWhile_append_rtakeWhile]
    rw [← List.append_assoc (a.takeWhile isSpace), List.takeWhile_append_dropWhile]
  rw [whole, trim_unique (fun c member => List.mem_takeWhile_imp member)
    (fun c member => List.mem_rtakeWhile_imp member) middle]

/-- Anything visible around a part is trimmed away only with the part. -/
theorem trim_length_lt {a l b : Text} (visible : ¬ Blank (a ++ b)) :
    (trim l).length < (trim (a ++ (l ++ b))).length := by
  by_cases blank : trim l = []
  · rw [blank, List.length_nil, List.length_pos_iff]
    intro whole
    apply visible
    intro c member
    apply trim_eq_nil.mp whole
    rcases List.mem_append.mp member with left | right
    · exact List.mem_append_left _ left
    · exact List.mem_append_right _ (List.mem_append_right _ right)
  · obtain ⟨before, after, left, right, whole⟩ := trim_decompose l
    have grouped : a ++ (l ++ b) = (a ++ before) ++ (trim l ++ (after ++ b)) := by
      conv_lhs => rw [whole]
      simp only [List.append_assoc]
    rw [grouped, trim_within _ _ (trim_tight l) blank, List.length_append, List.length_append]
    by_contra short
    have front : (a ++ before).dropWhile isSpace = [] := by
      rw [← List.length_eq_zero_iff]
      omega
    have back : (after ++ b).rdropWhile isSpace = [] := by
      rw [← List.length_eq_zero_iff]
      omega
    apply visible
    intro c member
    rcases List.mem_append.mp member with first | last
    · exact List.dropWhile_eq_nil_iff.mp front c (List.mem_append_left _ first)
    · exact List.rdropWhile_eq_nil_iff.mp back c (List.mem_append_right _ last)

end NeuralMesh.Js
