import NeuralMesh.Codec.Utf8

/-! UTF-8 that is decoded in pieces. The joined texts are the text of the joined bytes exactly when
no cut lies before a byte that continues an unfinished sequence; any other cut adds characters. -/
namespace NeuralMesh.Codec

open NeuralMesh.Js

/-- The unfinished sequence after some bytes. -/
def pendingAfter : Option Pending → Bytes → Option Pending
  | p, [] => p
  | p, b :: bs => pendingAfter (decodeByte p b).2 bs

/-- The text up to the unfinished sequence. -/
def decided : Option Pending → Bytes → Text
  | _, [] => []
  | p, b :: bs => (decodeByte p b).1 ++ decided (decodeByte p b).2 bs

/-- What is read of an unfinished sequence at the end. -/
def unfinished : Option Pending → Text
  | none => []
  | some _ => [replacement]

theorem decodeFrom_append (p : Option Pending) (a b : Bytes) :
    decodeFrom p (a ++ b) = decided p a ++ decodeFrom (pendingAfter p a) b := by
  induction a generalizing p with
  | nil => rfl
  | cons c a ih => rw [List.cons_append, decodeFrom_cons, ih, decided, pendingAfter, List.append_assoc]

theorem decodeFrom_decided (p : Option Pending) (a : Bytes) :
    decodeFrom p a = decided p a ++ unfinished (pendingAfter p a) := by
  have empty (q : Option Pending) : decodeFrom q [] = unfinished q := by cases q <;> rfl
  rw [← empty, ← decodeFrom_append, List.append_nil]

/-- The next byte belongs to the unfinished sequence. -/
def continues : Option Pending → Bytes → Bool
  | some p, b :: _ => p.lower ≤ b.toNat && b.toNat ≤ p.upper
  | _, _ => false

/-- A sequence goes on with continuation bytes only, and ends in a scalar value beyond ASCII. -/
def Pending.Wide (p : Pending) : Prop :=
  0x80 ≤ p.lower ∧ p.upper ≤ 0xBF ∧
    ((p.needed = 1 ∧ 2 ≤ p.bits ∧ p.bits < 17408 ∧ ¬ (864 ≤ p.bits ∧ p.bits < 896)) ∨
      (p.needed = 2 ∧ 16 ≤ p.bits ∧ p.bits < 272) ∨
      (p.needed = 2 ∧ p.bits < 16 ∧ (p.bits = 0 → 0xA0 ≤ p.lower) ∧
        (p.bits = 13 → p.upper ≤ 0x9F)) ∨
      (p.needed = 3 ∧ p.bits < 5 ∧ (p.bits = 0 → 0x90 ≤ p.lower) ∧ (p.bits = 4 → p.upper ≤ 0x8F)))

theorem openSequence_wide {b : Nat} {p : Pending} (opened : (openSequence b).2 = some p) :
    p.Wide := by
  unfold openSequence at opened
  split_ifs at opened <;> cases opened <;> unfold Pending.Wide <;> dsimp only <;> omega

theorem continueSequence_wide {q p : Pending} (wide : q.Wide) {b : Nat}
    (read : (continueSequence q b).2 = some p) : p.Wide := by
  unfold continueSequence at read
  split_ifs at read with inside last
  · cases read
    obtain ⟨low, high, ⟨one, -⟩ | ⟨two, least, most⟩ | ⟨two, most, zero, thirteen⟩ |
      ⟨three, most, zero, four⟩⟩ := wide
    · exact absurd one last
    · refine ⟨Nat.le_refl _, Nat.le_refl _, .inl ⟨?_, ?_⟩⟩ <;> dsimp only <;> omega
    · refine ⟨Nat.le_refl _, Nat.le_refl _, .inl ⟨?_, ?_⟩⟩ <;> dsimp only <;> omega
    · refine ⟨Nat.le_refl _, Nat.le_refl _, .inr (.inl ⟨?_, ?_⟩)⟩ <;> dsimp only <;> omega
  · exact openSequence_wide read

theorem pendingAfter_wide {q : Option Pending} (wide : ∀ p ∈ q, p.Wide) {a : Bytes}
    {p : Pending} (after : pendingAfter q a = some p) : p.Wide := by
  induction a generalizing q with
  | nil => exact wide p after
  | cons b a ih =>
    refine ih (fun next read => ?_) after
    cases q with
    | none => exact openSequence_wide read
    | some q => exact continueSequence_wide (wide q rfl) read

/-- A continuation byte opens no sequence. -/
theorem decodeFrom_continuation {b : UInt8} (continuation : 0x80 ≤ b.toNat ∧ b.toNat ≤ 0xBF)
    (bs : Bytes) : decodeFrom none (b :: bs) = replacement :: decodeFrom none bs := by
  have opened : openSequence b.toNat = ([replacement], none) := by
    rw [openSequence, if_neg (by omega), if_neg (by omega), if_neg (by omega), if_neg (by omega)]
  rw [decodeFrom_cons, decodeByte, opened]
  rfl

/-- A sequence that the next byte does not continue is read by itself. -/
theorem decodeFrom_broken {p : Option Pending} {b : Bytes} (breaks : continues p b = false) :
    decodeFrom p b = unfinished p ++ decodeFrom none b := by
  cases p with
  | none => rfl
  | some p =>
    cases b with
    | nil => rfl
    | cons c b =>
      have outside : ¬ (p.lower ≤ c.toNat ∧ c.toNat ≤ p.upper) := by
        intro inside
        rw [continues, decide_eq_true inside.1, decide_eq_true inside.2] at breaks
        cases breaks
      rw [decodeFrom_cons, decodeFrom_cons, decodeByte, decodeByte, continueSequence, if_neg outside]
      rfl

theorem decodeFrom_inside {p : Pending} (wide : p.Wide) {b : UInt8}
    (inside : p.lower ≤ b.toNat ∧ b.toNat ≤ p.upper) (bs : Bytes) :
    (∃ c : Char, 0x80 ≤ c.toNat ∧ decodeFrom (some p) (b :: bs) = c :: decodeFrom none bs) ∨
      ∃ q : Pending, q.Wide ∧ decodeFrom (some p) (b :: bs) = decodeFrom (some q) bs := by
  rw [decodeFrom_cons, decodeByte]
  by_cases last : p.needed = 1
  · left
    rw [continueSequence, if_pos inside, if_pos last]
    refine ⟨_, ?_, rfl⟩
    unfold Pending.Wide at wide
    have valid : (p.bits * 64 + b.toNat % 64).isValidChar := by
      unfold Nat.isValidChar
      omega
    rw [char_ofNat valid]
    omega
  · right
    have read : (continueSequence p b.toNat).2 = some ⟨p.needed - 1, 0x80, 0xBF,
        p.bits * 64 + b.toNat % 64⟩ := by
      rw [continueSequence, if_pos inside, if_neg last]
    refine ⟨_, continueSequence_wide wide read, ?_⟩
    rw [continueSequence, if_pos inside, if_neg last]
    rfl

/-- An unfinished sequence adds at most one character. -/
theorem decodeFrom_pending_length {p : Pending} (wide : p.Wide) (bs : Bytes) :
    (decodeFrom (some p) bs).length ≤ (decodeFrom none bs).length + 1 := by
  induction bs generalizing p with
  | nil => exact Nat.le_refl 1
  | cons b bs ih =>
    by_cases inside : p.lower ≤ b.toNat ∧ b.toNat ≤ p.upper
    · have continuation : 0x80 ≤ b.toNat ∧ b.toNat ≤ 0xBF :=
        ⟨wide.1.trans inside.1, inside.2.trans wide.2.1⟩
      rw [decodeFrom_continuation continuation, List.length_cons]
      rcases decodeFrom_inside wide inside bs with ⟨c, -, read⟩ | ⟨q, next, read⟩
      · rw [read, List.length_cons]
        omega
      · have later := ih next
        rw [read]
        omega
    · have breaks : continues (some p) (b :: bs) = false := by
        rw [continues, Bool.and_eq_false_iff, decide_eq_false_iff_not, decide_eq_false_iff_not]
        exact not_and_or.mp inside
      rw [decodeFrom_broken breaks, unfinished, List.singleton_append, List.length_cons]

/-- Before a byte that continues it, a sequence adds no character. -/
theorem decodeFrom_continued_length {p : Pending} (wide : p.Wide) {b : Bytes}
    (inside : continues (some p) b = true) :
    (decodeFrom (some p) b).length ≤ (decodeFrom none b).length := by
  cases b with
  | nil => cases inside
  | cons c b =>
    rw [continues, Bool.and_eq_true, decide_eq_true_eq, decide_eq_true_eq] at inside
    have continuation : 0x80 ≤ c.toNat ∧ c.toNat ≤ 0xBF :=
      ⟨wide.1.trans inside.1, inside.2.trans wide.2.1⟩
    rw [decodeFrom_continuation continuation, List.length_cons]
    rcases decodeFrom_inside wide inside b with ⟨c, -, read⟩ | ⟨q, next, read⟩
    · rw [read, List.length_cons]
    · rw [read]
      exact decodeFrom_pending_length next b

/-! ### Cuts -/

/-- The cut lies before a byte that continues a sequence begun in the piece. -/
def cutsSequence (a b : Bytes) : Bool := continues (pendingAfter none a) b

theorem decodeUtf8_append {a b : Bytes} (clean : cutsSequence a b = false) :
    decodeUtf8 (a ++ b) = decodeUtf8 a ++ decodeUtf8 b := by
  unfold decodeUtf8
  rw [decodeFrom_append, decodeFrom_decided none a, decodeFrom_broken clean, List.append_assoc]

theorem decodeUtf8_append_lt {a b : Bytes} (cut : cutsSequence a b = true) :
    (decodeUtf8 (a ++ b)).length < (decodeUtf8 a).length + (decodeUtf8 b).length := by
  unfold cutsSequence at cut
  cases pending : pendingAfter none a with
  | none =>
    rw [pending] at cut
    cases cut
  | some p =>
    rw [pending] at cut
    have wide := pendingAfter_wide (q := none) (fun _ none => nomatch none) pending
    have added := decodeFrom_continued_length wide cut
    unfold decodeUtf8
    rw [decodeFrom_append, decodeFrom_decided none a, pending, List.length_append,
      List.length_append, unfinished, List.length_singleton]
    omega

/-- No cut between these pieces divides a sequence. -/
def Whole : List Bytes → Prop
  | [] => True
  | piece :: rest => cutsSequence piece rest.flatten = false ∧ Whole rest

/-- The text of pieces that are decoded one by one. -/
def decodePieces (pieces : List Bytes) : Text := (pieces.map decodeUtf8).flatten

theorem decodePieces_cons (piece : Bytes) (pieces : List Bytes) :
    decodePieces (piece :: pieces) = decodeUtf8 piece ++ decodePieces pieces := by
  rw [decodePieces, List.map_cons, List.flatten_cons]
  rfl

theorem decodePieces_append (a b : List Bytes) :
    decodePieces (a ++ b) = decodePieces a ++ decodePieces b := by
  rw [decodePieces, List.map_append, List.flatten_append]
  rfl

theorem decodePieces_length (pieces : List Bytes) :
    (decodeUtf8 pieces.flatten).length ≤ (decodePieces pieces).length := by
  induction pieces with
  | nil => exact Nat.le_refl 0
  | cons piece rest ih =>
    rw [List.flatten_cons, decodePieces_cons, List.length_append]
    cases cut : cutsSequence piece rest.flatten with
    | true =>
      have more := decodeUtf8_append_lt cut
      omega
    | false =>
      rw [decodeUtf8_append cut, List.length_append]
      omega

/-- The pieces give the text of the whole exactly when no sequence is divided. -/
theorem decodePieces_eq_iff (pieces : List Bytes) :
    decodePieces pieces = decodeUtf8 pieces.flatten ↔ Whole pieces := by
  induction pieces with
  | nil => exact ⟨fun _ => trivial, fun _ => rfl⟩
  | cons piece rest ih =>
    rw [List.flatten_cons, decodePieces_cons, Whole]
    have shortest := decodePieces_length rest
    cases cut : cutsSequence piece rest.flatten with
    | true =>
      constructor
      · intro same
        have more := decodeUtf8_append_lt cut
        rw [← same, List.length_append] at more
        omega
      · rintro ⟨clean, -⟩
        cases clean
    | false =>
      rw [decodeUtf8_append cut, List.append_cancel_left_eq, ih]
      exact ⟨fun whole => ⟨rfl, whole⟩, fun both => both.2⟩

/-- Several wholes, each in pieces. -/
theorem decodePieces_groups_eq_iff (groups : List (List Bytes)) :
    decodePieces groups.flatten = decodePieces (groups.map List.flatten) ↔
      ∀ group ∈ groups, Whole group := by
  have longer (groups : List (List Bytes)) : (decodePieces (groups.map List.flatten)).length ≤
      (decodePieces groups.flatten).length := by
    induction groups with
    | nil => exact Nat.le_refl 0
    | cons group groups ih =>
      have grown := decodePieces_length group
      rw [List.map_cons, List.flatten_cons, decodePieces_cons, decodePieces_append,
        List.length_append, List.length_append]
      omega
  induction groups with
  | nil =>
    constructor
    · intro _ group member
      cases member
    · exact fun _ => rfl
  | cons group groups ih =>
    rw [List.map_cons, List.flatten_cons, decodePieces_cons, decodePieces_append,
      List.forall_mem_cons]
    refine Iff.trans ?_ (and_congr (decodePieces_eq_iff group) ih)
    constructor
    · intro same
      have first := decodePieces_length group
      have others := longer groups
      have lengths := congrArg List.length same
      rw [List.length_append, List.length_append] at lengths
      exact List.append_inj same (by omega)
    · rintro ⟨first, others⟩
      rw [first, others]

/-! ### ASCII -/

/-- An unfinished sequence is read as a character beyond ASCII. -/
theorem decodeFrom_pending_head {p : Pending} (wide : p.Wide) (bs : Bytes) :
    ∃ c rest, decodeFrom (some p) bs = c :: rest ∧ 0x80 ≤ c.toNat := by
  induction bs generalizing p with
  | nil => exact ⟨replacement, [], rfl, by decide⟩
  | cons b bs ih =>
    by_cases inside : p.lower ≤ b.toNat ∧ b.toNat ≤ p.upper
    · rcases decodeFrom_inside wide inside bs with ⟨c, beyond, read⟩ | ⟨q, next, read⟩
      · exact ⟨c, _, read, beyond⟩
      · rw [read]
        exact ih next
    · have breaks : continues (some p) (b :: bs) = false := by
        rw [continues, Bool.and_eq_false_iff, decide_eq_false_iff_not, decide_eq_false_iff_not]
        exact not_and_or.mp inside
      exact ⟨replacement, _, decodeFrom_broken breaks, by decide⟩

theorem decodeFrom_ascii {b : UInt8} (ascii : b.toNat < 0x80) (bs : Bytes) :
    decodeFrom none (b :: bs) = Char.ofNat b.toNat :: decodeFrom none bs := by
  rw [decodeFrom_cons, decodeByte, openSequence, if_pos ascii]
  rfl

theorem decodeFrom_beyond {b : UInt8} (beyond : 0x80 ≤ b.toNat) (bs : Bytes) :
    ∃ c rest, decodeFrom none (b :: bs) = c :: rest ∧ 0x80 ≤ c.toNat := by
  rw [decodeFrom_cons, decodeByte]
  cases opened : (openSequence b.toNat).2 with
  | none =>
    have single : (openSequence b.toNat).1 = [replacement] := by
      unfold openSequence at opened ⊢
      rw [if_neg (by omega)] at opened ⊢
      split_ifs at opened ⊢
      rfl
    exact ⟨replacement, _, by rw [single]; rfl, by decide⟩
  | some p =>
    have silent : (openSequence b.toNat).1 = [] := by
      unfold openSequence at opened ⊢
      split_ifs at opened ⊢ <;> rfl
    rw [silent]
    exact decodeFrom_pending_head (openSequence_wide opened) bs

/-- A text of ASCII characters is read at the start of some bytes when they start with it. -/
theorem decodeUtf8_startsWith {text : Text} (ascii : ∀ c ∈ text, c.toNat < 0x80) (bytes : Bytes) :
    text.isPrefixOf (decodeUtf8 bytes) =
      (text.map fun c => UInt8.ofNat c.toNat).isPrefixOf bytes := by
  induction text generalizing bytes with
  | nil => rfl
  | cons c text ih =>
    obtain ⟨first, others⟩ := List.forall_mem_cons.mp ascii
    cases bytes with
    | nil => rfl
    | cons b bytes =>
      have unit : (UInt8.ofNat c.toNat).toNat = c.toNat := by
        rw [UInt8.toNat_ofNat', Nat.mod_eq_of_lt (by omega)]
      rw [List.map_cons, List.isPrefixOf]
      by_cases plain : b.toNat < 0x80
      · have same : (c == Char.ofNat b.toNat) = (UInt8.ofNat c.toNat == b) := by
          have valid : b.toNat.isValidChar := .inl (by omega)
          rw [Bool.eq_iff_iff, beq_iff_eq, beq_iff_eq]
          constructor
          · rintro rfl
            rw [char_ofNat valid]
            exact UInt8.ofNat_toNat
          · rintro rfl
            rw [unit, Char.ofNat_toNat]
        rw [decodeUtf8, decodeFrom_ascii plain, List.isPrefixOf, same, ← decodeUtf8, ih others]
      · obtain ⟨d, rest, read, beyond⟩ := decodeFrom_beyond (Nat.le_of_not_lt plain) bytes
        have different : (c == d) = false := by
          rw [beq_eq_false_iff_ne]
          rintro rfl
          omega
        have apart : (UInt8.ofNat c.toNat == b) = false := by
          rw [beq_eq_false_iff_ne]
          rintro rfl
          omega
        rw [decodeUtf8, read, List.isPrefixOf, different, apart, Bool.false_and, Bool.false_and]

end NeuralMesh.Codec
