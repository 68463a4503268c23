import Mathlib.Data.List.Basic

/-! The inspection of WASM modules, by the SDK and by the node. Both parsers are parameters: each
side sees the imports and the size of the code section as its parser reports them. -/
namespace NeuralMesh.Security

structure Import where
  moduleName : String
  name : String
  deriving DecidableEq

/-! ### The SDK -/

/-- `WebAssembly.compile` and `WebAssembly.Module.imports` -/
structure WebAssembly (Module : Type) where
  compile : List UInt8 → Except String Module
  imports : Module → List Import

def GuardianViolationError (message : String) : String := "[AST Security Violation]: " ++ message

/-- The first import of the loop that is from neither module. -/
def bannedImport (native : String) (imports : List Import) : Option Import :=
  imports.find? fun imp => imp.moduleName != "wasi_snapshot_preview1" && imp.moduleName != native

def analyzeAst {Module : Type} (wasm : WebAssembly Module) (wasmBytes : List UInt8) :
    Except String Module :=
  match wasm.compile wasmBytes with
  | .error message => .error (GuardianViolationError
      ("Payload structurally invalid or potential bomb: " ++ message))
  | .ok compiled =>
    match bannedImport "LIOP" (wasm.imports compiled) with
    | some imp => .error (GuardianViolationError
        ("Banned Host Import Detected: " ++ imp.moduleName ++ "/" ++ imp.name))
    | none => .ok compiled

/-! ### The node -/

/-- The payloads of `wasmparser` that the inspection matches. -/
inductive Payload where
  | importSection (imports : List (Except String Import))
  | codeSectionStart (count : Nat)
  | other

def guardianError (message : String) : String := "AST Sec-Policy Violation: " ++ message

def analyzeImports : List (Except String Import) → Except String Unit
  | [] => .ok ()
  | .error message :: _ => .error message
  | .ok imp :: imports =>
    if imp.moduleName != "wasi_snapshot_preview1" && imp.moduleName != "liop" then
      .error (guardianError ("Banned Host Import Detected: " ++ imp.moduleName ++ "/" ++ imp.name))
    else analyzeImports imports

def analyzePayloads : List (Except String Payload) → Except String Unit
  | [] => .ok ()
  | .error message :: _ => .error message
  | .ok (.importSection imports) :: payloads =>
    match analyzeImports imports with
    | .error message => .error message
    | .ok _ => analyzePayloads payloads
  | .ok (.codeSectionStart count) :: payloads =>
    if 50000 < count then
      .error (guardianError "Payload exceeds structural limits (Potential AST Bomb)")
    else analyzePayloads payloads
  | .ok .other :: payloads => analyzePayloads payloads

def analyze_ast (parse_all : List UInt8 → List (Except String Payload)) (wasm_bytes : List UInt8) :
    Except String Unit :=
  analyzePayloads (parse_all wasm_bytes)

/-! ### Agreement -/

/-- The payloads of a valid module with these imports and so many functions of its own. -/
inductive Reports : List (Except String Payload) → List Import → Nat → Prop where
  | done : Reports [] [] 0
  | imports {payloads : List (Except String Payload)} {later : List Import} {functions : Nat}
      (listed : List Import) : Reports payloads later functions →
      Reports (.ok (.importSection (listed.map .ok)) :: payloads) (listed ++ later) functions
  | code {payloads : List (Except String Payload)} {later : List Import} (functions : Nat) :
      Reports payloads later 0 →
      Reports (.ok (.codeSectionStart functions) :: payloads) later functions
  | other {payloads : List (Except String Payload)} {later : List Import} {functions : Nat} :
      Reports payloads later functions → Reports (.ok .other :: payloads) later functions

def FromModules (names : List String) (imports : List Import) : Prop :=
  ∀ imp ∈ imports, imp.moduleName ∈ names

instance (names : List String) (imports : List Import) : Decidable (FromModules names imports) :=
  inferInstanceAs (Decidable (∀ imp ∈ imports, imp.moduleName ∈ names))

def Accepts {α : Type} (analysis : Except String α) : Prop := ∃ result, analysis = .ok result

theorem analyzeAst_accepts {Module : Type} {wasm : WebAssembly Module} {wasmBytes : List UInt8}
    {compiled : Module} (valid : wasm.compile wasmBytes = .ok compiled) :
    Accepts (analyzeAst wasm wasmBytes) ↔
      FromModules ["wasi_snapshot_preview1", "LIOP"] (wasm.imports compiled) := by
  have clean : bannedImport "LIOP" (wasm.imports compiled) = none ↔
      FromModules ["wasi_snapshot_preview1", "LIOP"] (wasm.imports compiled) := by
    simp [bannedImport, FromModules, List.find?_eq_none, or_iff_not_imp_left]
  rw [← clean, Accepts, analyzeAst, valid]
  dsimp only
  cases bannedImport "LIOP" (wasm.imports compiled) with
  | none => simp
  | some imp => simp

theorem analyzeImports_ok (imports : List Import) :
    analyzeImports (imports.map .ok) = .ok () ↔
      FromModules ["wasi_snapshot_preview1", "liop"] imports := by
  induction imports with
  | nil => simp [analyzeImports, FromModules]
  | cons imp imports ih =>
    simp only [FromModules, List.forall_mem_cons] at ih ⊢
    rw [List.map_cons, analyzeImports, ← ih]
    split_ifs with banned
    · simp_all
    · simp_all [or_iff_not_imp_left]

theorem analyzePayloads_ok {payloads : List (Except String Payload)} {imports : List Import}
    {functions : Nat} (reports : Reports payloads imports functions) :
    analyzePayloads payloads = .ok () ↔
      FromModules ["wasi_snapshot_preview1", "liop"] imports ∧ functions ≤ 50000 := by
  induction reports with
  | done => simp [analyzePayloads, FromModules]
  | @imports payloads later functions imports _ ih =>
    have split : FromModules ["wasi_snapshot_preview1", "liop"] (imports ++ later) ↔
        FromModules ["wasi_snapshot_preview1", "liop"] imports ∧
          FromModules ["wasi_snapshot_preview1", "liop"] later := List.forall_mem_append
    rw [split, analyzePayloads, and_assoc, ← ih, ← analyzeImports_ok]
    cases analyzeImports (imports.map .ok) <;> simp
  | code functions _ ih =>
    rw [analyzePayloads]
    split_ifs with bomb
    · simp [Nat.not_le.mpr bomb]
    · rw [ih, and_iff_left (Nat.zero_le _), and_iff_left (Nat.not_lt.mp bomb)]
  | other _ ih => rwa [analyzePayloads]

/-- Neither spelling of the native module decides, and neither does the size. -/
def Unaffected (imports : List Import) (functions : Nat) : Prop :=
  ¬ FromModules ["wasi_snapshot_preview1", "LIOP", "liop"] imports ∨
    ("LIOP" ∈ imports.map (·.moduleName) ∧ "liop" ∈ imports.map (·.moduleName)) ∨
    ("liop" ∈ imports.map (·.moduleName) ∧ 50000 < functions) ∨
    (FromModules ["wasi_snapshot_preview1"] imports ∧ functions ≤ 50000)

/-- Of the modules that may occur, those left out do not. -/
theorem fromModules_iff {names kept : List String} {imports : List Import}
    (all : FromModules names imports) : FromModules kept imports ↔
      ∀ name ∈ names, name ∉ kept → name ∉ imports.map (·.moduleName) := by
  constructor
  · intro some' name _ left_out occurs
    obtain ⟨imp, member, rfl⟩ := List.mem_map.mp occurs
    exact left_out (some' imp member)
  · intro absent imp member
    by_contra left_out
    exact absent imp.moduleName (all imp member) left_out (List.mem_map_of_mem member)

theorem FromModules.mono {names more : List String} {imports : List Import}
    (all : FromModules names imports) (subset : names ⊆ more) : FromModules more imports :=
  fun imp member => subset (all imp member)

theorem guardians_agree_iff {Module : Type} {wasm : WebAssembly Module}
    {parse_all : List UInt8 → List (Except String Payload)} {wasmBytes : List UInt8}
    {compiled : Module} {functions : Nat} (valid : wasm.compile wasmBytes = .ok compiled)
    (reports : Reports (parse_all wasmBytes) (wasm.imports compiled) functions) :
    (Accepts (analyzeAst wasm wasmBytes) ↔ Accepts (analyze_ast parse_all wasmBytes)) ↔
      Unaffected (wasm.imports compiled) functions := by
  have node : Accepts (analyze_ast parse_all wasmBytes) ↔
      analyzePayloads (parse_all wasmBytes) = .ok () :=
    ⟨fun ⟨_, accepted⟩ => accepted, fun accepted => ⟨_, accepted⟩⟩
  rw [analyzeAst_accepts valid, node, analyzePayloads_ok reports, Unaffected]
  by_cases known : FromModules ["wasi_snapshot_preview1", "LIOP", "liop"] (wasm.imports compiled)
  · have sdk : FromModules ["wasi_snapshot_preview1", "LIOP"] (wasm.imports compiled) ↔
        "liop" ∉ (wasm.imports compiled).map (·.moduleName) := by
      rw [fromModules_iff known]
      simp
    have rust : FromModules ["wasi_snapshot_preview1", "liop"] (wasm.imports compiled) ↔
        "LIOP" ∉ (wasm.imports compiled).map (·.moduleName) := by
      rw [fromModules_iff known]
      simp
    have both : FromModules ["wasi_snapshot_preview1"] (wasm.imports compiled) ↔
        "LIOP" ∉ (wasm.imports compiled).map (·.moduleName) ∧
          "liop" ∉ (wasm.imports compiled).map (·.moduleName) := by
      rw [fromModules_iff known]
      simp
    rw [sdk, rust, both, ← Nat.not_le]
    tauto
  · have sdk : ¬ FromModules ["wasi_snapshot_preview1", "LIOP"] (wasm.imports compiled) :=
      fun all => known (all.mono (by decide))
    have rust : ¬ FromModules ["wasi_snapshot_preview1", "liop"] (wasm.imports compiled) :=
      fun all => known (all.mono (by decide))
    simp only [known, sdk, rust, false_and, not_false_eq_true, true_or]

/-! ### Modules with one import -/

/-- One type, a function without parameters and results, and one import of this type. -/
def buildImportWasm (imp : Import) : List UInt8 :=
  let moduleBytes := imp.moduleName.toUTF8.toList
  let funcBytes := imp.name.toUTF8.toList
  let importPayload := [1, moduleBytes.length.toUInt8] ++ moduleBytes ++
    [funcBytes.length.toUInt8] ++ funcBytes ++ [0, 0]
  [0x00, 0x61, 0x73, 0x6D, 0x01, 0x00, 0x00, 0x00] ++ [1, 4, 1, 0x60, 0, 0] ++
    [2, importPayload.length.toUInt8] ++ importPayload

def importWasm (imp : Import) : WebAssembly (List Import) where
  compile wasmBytes := if wasmBytes = buildImportWasm imp then .ok [imp] else .error ""
  imports := id

/-- The version, the types, the imports and the end. -/
def importPayloads (imp : Import) (wasm_bytes : List UInt8) : List (Except String Payload) :=
  if wasm_bytes = buildImportWasm imp then
    [.ok .other, .ok .other, .ok (.importSection [.ok imp]), .ok .other]
  else [.error ""]

theorem importWasm_valid (imp : Import) :
    (importWasm imp).compile (buildImportWasm imp) = .ok [imp] :=
  if_pos rfl

theorem importPayloads_reports (imp : Import) :
    Reports (importPayloads imp (buildImportWasm imp)) [imp] 0 := by
  rw [importPayloads, if_pos rfl]
  exact .other (.other (.imports [imp] (.other .done)))

theorem fdWrite_agree :
    Accepts (analyzeAst (importWasm ⟨"wasi_snapshot_preview1", "fd_write"⟩)
        (buildImportWasm ⟨"wasi_snapshot_preview1", "fd_write"⟩)) ↔
      Accepts (analyze_ast (importPayloads ⟨"wasi_snapshot_preview1", "fd_write"⟩)
        (buildImportWasm ⟨"wasi_snapshot_preview1", "fd_write"⟩)) := by
  refine (guardians_agree_iff (importWasm_valid _) (importPayloads_reports _)).mpr ?_
  exact .inr (.inr (.inr ⟨by decide, Nat.zero_le _⟩))

/-- The native module as the node's tests spell it. -/
theorem pushEvent_disagree :
    ¬ (Accepts (analyzeAst (importWasm ⟨"liop", "push_event"⟩)
        (buildImportWasm ⟨"liop", "push_event"⟩)) ↔
      Accepts (analyze_ast (importPayloads ⟨"liop", "push_event"⟩)
        (buildImportWasm ⟨"liop", "push_event"⟩))) := by
  intro agree
  have accepted : analyzePayloads _ = .ok () :=
    (analyzePayloads_ok (importPayloads_reports ⟨"liop", "push_event"⟩)).mpr
      ⟨by decide, Nat.zero_le _⟩
  have sdk := (analyzeAst_accepts (importWasm_valid _)).mp (agree.mpr ⟨(), accepted⟩)
  exact absurd sdk (by decide)

end NeuralMesh.Security
