import NeuralMesh.Security.AuditLogger

/-! Writes that fail. The entry and its hash are in memory before the line is appended, so a failed
write leaves them there; the file misses the entry, and its chain breaks at the next one. -/
namespace NeuralMesh.Security

open Js Codec Chain

section Writes

variable (sha256 : Bytes → Bytes) (display : JsValue → JsString)

/-- `recordExecution` where `appendFileSync` throws: the file was not touched, or this much of the
line was written. -/
def AuditLog.failedWrite (log : AuditLog) (draws : AuditDraws) (params : AuditRecordParams)
    (written : Option Bytes) : AuditLog :=
  let (logger, _) := log.logger.recordExecution sha256 draws params
  ⟨logger, log.persistent,
    written.elim log.file fun part => some (log.file.getD [] ++ part), log.returned⟩

def recordings (records : List (AuditDraws × AuditRecordParams)) : List AuditEvent :=
  records.map fun r => .record r.1 r.2

/-- The logger that is constructed from the file is valid. -/
def ReloadsValid (log : AuditLog) : Prop :=
  ∃ reloaded, construct log.file = some reloaded ∧
    (verifyIntegrity sha256 display reloaded.entries).valid = true

/-- The logger is as before the write, and after more recordings the file is valid. -/
structure LeavesNoTrace (log : AuditLog) (draws : AuditDraws) (params : AuditRecordParams)
    (written : Option Bytes) : Prop where
  entries : (log.failedWrite sha256 draws params written).logger.entries = log.logger.entries
  lastEntryHash : (log.failedWrite sha256 draws params written).logger.lastEntryHash =
    log.logger.lastEntryHash
  reloads : ∀ records reached, (log.failedWrite sha256 draws params written).run sha256
    (recordings records) = some reached → ReloadsValid sha256 display reached

/-- The file has all entries but one, after which the logger went on. -/
structure Forked (before : List JsValue) (lost : JsValue) (log : AuditLog) (added : List JsValue) :
    Prop where
  chained : Chained sha256 log.logger
  kept : log.logger.entries = before ++ lost :: added
  persistent : log.persistent = true
  stored : ∃ last, construct log.file = some ⟨before ++ added, last⟩
  terminated : Terminated (log.file.getD [])

variable {sha256} {display}

theorem failedWrite_forked {start : List JsValue} {log : AuditLog} (intact : Intact sha256 start log)
    (persistent : log.persistent = true) (draws : AuditDraws) (params : AuditRecordParams) :
    Forked sha256 log.logger.entries (fullEntry sha256 draws params log.logger.lastEntryHash)
      (log.failedWrite sha256 draws params none) [] where
  chained := recordExecution_chained intact.chained draws params
  kept := rfl
  persistent := persistent
  stored := by
    rw [List.append_nil]
    exact ⟨_, intact.stored persistent⟩
  terminated := intact.terminated

theorem record_forked {before added : List JsValue} {lost : JsValue} {log : AuditLog}
    (forked : Forked sha256 before lost log added) (draws : AuditDraws) (params : AuditRecordParams)
    (finite : params.Finite) :
    ∃ next entry, log.step sha256 (.record draws params) = some next ∧
      Forked sha256 before lost next (added ++ [entry]) := by
  obtain ⟨h, named⟩ := forked.chained.last_string
  obtain ⟨last, stored⟩ := forked.stored
  have recorded := @construct_appended sha256 _ forked.terminated _ stored draws params h
  have reread := (@reread_fullEntry sha256 draws params h).mpr finite
  refine ⟨_, fullEntry sha256 draws params log.logger.lastEntryHash, rfl, ?_⟩
  constructor
  · exact recordExecution_chained forked.chained draws params
  · dsimp only [AuditLogger.recordExecution]
    rw [forked.kept, List.append_assoc, List.cons_append]
  · exact forked.persistent
  · dsimp only at recorded ⊢
    rw [reread] at recorded
    rw [if_pos forked.persistent, named, ← List.append_assoc]
    exact ⟨_, recorded⟩
  · dsimp only
    rw [if_pos forked.persistent]
    exact terminated_append _ _

theorem run_forked {before added : List JsValue} {lost : JsValue} {log : AuditLog}
    (forked : Forked sha256 before lost log added)
    {records : List (AuditDraws × AuditRecordParams)} (finite : ∀ r ∈ records, r.2.Finite) :
    ∃ reached later, log.run sha256 (recordings records) = some reached ∧
      later.length = records.length ∧ Forked sha256 before lost reached (added ++ later) := by
  induction records generalizing log added with
  | nil => exact ⟨log, [], rfl, rfl, (List.append_nil added).symm ▸ forked⟩
  | cons r records ih =>
    obtain ⟨first, others⟩ := List.forall_mem_cons.mp finite
    obtain ⟨next, entry, stepped, forked⟩ := record_forked forked r.1 r.2 first
    obtain ⟨reached, later, run, counted, forked⟩ := ih forked others
    refine ⟨reached, entry :: later, ?_, congrArg (· + 1) counted, ?_⟩
    · rw [AuditLog.run, recordings, List.map_cons, List.foldlM_cons, stepped]
      exact run
    · rwa [List.append_assoc] at forked

/-- Without an entry of it, a chain goes on just when that entry repeats a hash. -/
theorem forked_reloadsValid_iff {before added : List JsValue} {lost entry : JsValue} {log : AuditLog}
    (forked : Forked sha256 before lost log (entry :: added)) :
    ReloadsValid sha256 display log ↔ hashOf lost = lastHash hashOf (.str genesisHash) before := by
  obtain ⟨last, stored⟩ := forked.stored
  have linked := forked.chained.linked
  have hashed := forked.chained.hashed
  rw [forked.kept] at linked hashed
  obtain ⟨first, -, named, rest⟩ := linked_append.mp linked
  have others : ∀ e ∈ before ++ entry :: added, Hashed sha256 e := by
    intro e member
    apply hashed e
    rcases List.mem_append.mp member with early | late
    · exact List.mem_append_left _ early
    · exact List.mem_append_right _ (List.mem_cons_of_mem lost late)
  have valid : ReloadsValid sha256 display log ↔
      Linked prevOf hashOf (.str genesisHash) (before ++ entry :: added) := by
    rw [ReloadsValid, stored]
    constructor
    · rintro ⟨reloaded, same, valid⟩
      cases same
      exact (verifyIntegrity_valid.mp valid).1
    · intro linked
      exact ⟨_, rfl, verifyIntegrity_valid.mpr ⟨linked, others⟩⟩
  rw [valid, linked_append, Linked, named]
  exact ⟨fun linked => linked.2.1, fun repeated => ⟨first, repeated, rest⟩⟩

theorem failedWrite_entries (log : AuditLog) (draws : AuditDraws) (params : AuditRecordParams)
    (written : Option Bytes) :
    (log.failedWrite sha256 draws params written).logger.entries ≠ log.logger.entries := by
  intro same
  have longer := congrArg List.length same
  rw [AuditLog.failedWrite, AuditLogger.recordExecution, List.length_append] at longer
  exact absurd longer (Nat.succ_ne_self _)

variable (sha256) (display)

/-- Every failed write leaves its entry in memory. From a sound log with nothing written, the file
is not valid again after more recordings, unless the entry repeats the hash before it. -/
theorem failed_write_traced :
    (∀ log draws params written, ¬ LeavesNoTrace sha256 display log draws params written) ∧
    ∀ start log, Intact sha256 start log → log.persistent = true →
      ∀ draws params records, records ≠ [] → (∀ r ∈ records, r.2.Finite) →
        ∃ reached, (log.failedWrite sha256 draws params none).run sha256 (recordings records) =
            some reached ∧
          (ReloadsValid sha256 display reached ↔
            hashOf (fullEntry sha256 draws params log.logger.lastEntryHash) =
              log.logger.lastEntryHash) := by
  refine ⟨fun log draws params written traceless =>
    failedWrite_entries log draws params written traceless.entries, ?_⟩
  intro start log intact persistent draws params records several finite
  obtain ⟨reached, later, run, counted, forked⟩ :=
    run_forked (failedWrite_forked intact persistent draws params) finite
  refine ⟨reached, run, ?_⟩
  cases later with
  | nil => exact absurd (List.eq_nil_of_length_eq_zero counted.symm) several
  | cons entry added => rw [forked_reloadsValid_iff forked, intact.chained.last]

end Writes

/-- The first write of a log fails, with nothing written. -/
theorem first_write_traced : ¬ ∀ log draws params,
    LeavesNoTrace id (fun _ => []) log draws params none := by
  intro traceless
  have kept := (traceless ⟨.empty, true, none, []⟩ exampleDraws zeroFuel).entries
  cases kept

end NeuralMesh.Security
