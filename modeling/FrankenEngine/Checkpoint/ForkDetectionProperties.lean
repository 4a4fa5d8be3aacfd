import FrankenEngine.Checkpoint.ForkDetection
import FrankenEngine.Library.History
import FrankenEngine.Library.Window

/-!
# Exactness of fork detection

Over any run of the detector's calls, the history of a zone is the window of
the highest sequence numbers that were recorded there without a fork, a fork is
reported exactly for a sequence number in that window that comes with another
id, and safe mode lasts from a fork to an exit with no open incident.
-/

set_option autoImplicit false

namespace FrankenEngine.Checkpoint

open Library Option

theorem ZoneState.trimHistory_fst (state : ZoneState) :
    state.trimHistory.1 = { state with history := state.history.trim state.maxHistory } := by
  have trimmed : ∀ history : OrderedMap UInt64 CheckpointHistoryEntry,
      history.entries = state.history.entries.drop
        (state.history.entries.length - state.maxHistory) →
      history = state.history.trim state.maxHistory := by
    rintro ⟨entries, ascending⟩ same
    cases same
    rfl
  unfold trimHistory
  split
  next fits =>
    have kept := trimmed state.history (by rw [Nat.sub_eq_zero_of_le fits, List.drop_zero])
    rw [← kept]
  next => rw [← trimmed _ (OrderedMap.entries_foldl_erase_take _ _)]

namespace ForkDetector

def openCount (incidents : List ForkIncidentReport) : Nat :=
  incidents.countP fun incident => !incident.acknowledged

theorem openCount_acknowledgeFirst {incidentId : String}
    {incidents after : List ForkIncidentReport}
    (found : acknowledgeFirst incidentId incidents = some after) :
    openCount incidents = openCount after + 1 := by
  induction incidents generalizing after with
  | nil => cases found
  | cons incident rest ih =>
    simp only [acknowledgeFirst] at found
    split at found
    next first =>
      cases found
      simp [openCount, first.2]
    next =>
      obtain ⟨later, laterFound, rfl⟩ := map_eq_some_iff.mp found
      have counted := ih laterFound
      simp only [openCount, List.countP_cons] at counted ⊢
      omega

def zoneState (detector : ForkDetector) (zone : String) : ZoneState :=
  (detector.zones.get? zone).getD (.new detector.defaultMaxHistory)

variable (detector : ForkDetector)

include detector

theorem zoneState_insert (events : List ForkEvent) (zone other : String) (state : ZoneState) :
    zoneState { detector with zones := detector.zones.insert zone state, events } other =
      if other = zone then state else detector.zoneState other := by
  unfold zoneState
  rw [OrderedMap.get?_insert]
  split <;> rfl

variable (zone : String)

theorem isSafeMode_eq : detector.isSafeMode zone = (detector.zoneState zone).safeMode.active := by
  unfold isSafeMode zoneState
  cases detector.zones.get? zone <;> rfl

theorem incidents_eq : detector.incidents zone = (detector.zoneState zone).incidents := by
  unfold incidents zoneState
  cases detector.zones.get? zone <;> rfl

theorem unacknowledgedIncidents_length : (detector.unacknowledgedIncidents zone).length =
      openCount (detector.zoneState zone).incidents := by
  rw [unacknowledgedIncidents, incidents_eq, openCount, List.countP_eq_length_filter]

theorem unacknowledgedCount_eq :
    ((detector.safeModeState zone).map (·.unacknowledgedCount)).getD 0 =
      (detector.zoneState zone).safeMode.unacknowledgedCount := by
  unfold safeModeState zoneState
  cases detector.zones.get? zone <;> rfl

theorem history_get? (seq : UInt64) :
    (detector.history zone).bind (·.get? seq) = (detector.zoneState zone).history.get? seq := by
  unfold history zoneState
  cases detector.zones.get? zone <;> rfl

omit detector

abbrev Entry := Record ForkDetector Call Outcome

/-- What a call records in a zone, if it does not report a fork. -/
def recordingOf (zone : String) (entry : Entry) : Option (UInt64 × CheckpointHistoryEntry) :=
  match entry.call, entry.outcome with
  | .recordCheckpoint input, .recorded (.ok ()) =>
    if input.zone = zone then some (input.checkpoint.checkpointSeq, input.historyEntry) else none
  | _, _ => none

def recordings (zone : String) (past : List Entry) : List (UInt64 × CheckpointHistoryEntry) :=
  past.filterMap (recordingOf zone)

def Forks (zone : String) (entry : Entry) : Prop :=
  ∃ input report, entry.call = .recordCheckpoint input ∧ input.zone = zone ∧
    entry.outcome = .recorded (.error report)

/-- The call asks to leave safe mode when every incident of the zone is acknowledged. -/
def Clears (zone : String) (entry : Entry) : Prop :=
  (∃ traceId, entry.call = .exitSafeMode zone traceId) ∧
    entry.before.unacknowledgedIncidents zone = []

inductive Effect (zone : String) (entry : Entry) (before : ZoneState) : ZoneState → Prop where
  | idle (none : recordingOf zone entry = none) (noFork : ¬ Forks zone entry)
      (inactive : Clears zone entry → before.safeMode.active = false) :
      Effect zone entry before before
  | repeated {seq : UInt64} {again held : CheckpointHistoryEntry}
      (recorded : recordingOf zone entry = some (seq, again))
      (known : before.history.get? seq = some held) (noFork : ¬ Forks zone entry)
      (noExit : ¬ Clears zone entry) : Effect zone entry before before
  | stored {seq : UInt64} {first : CheckpointHistoryEntry}
      (recorded : recordingOf zone entry = some (seq, first))
      (missing : before.history.get? seq = none) (noFork : ¬ Forks zone entry)
      (noExit : ¬ Clears zone entry) :
      Effect zone entry before
        { before with history := (before.history.insert seq first).trim before.maxHistory }
  | forked {report : ForkIncidentReport} {counter seq : UInt64} (fork : Forks zone entry)
      (none : recordingOf zone entry = none) (isOpen : report.acknowledged = false) :
      Effect zone entry before
        { before with
          incidentCounter := counter
          safeMode :=
            { active := true
              triggerSeq := some seq
              unacknowledgedCount := before.safeMode.unacknowledgedCount + 1 }
          incidents := before.incidents ++ [report] }
  | acknowledged {incidents : List ForkIncidentReport}
      (counted : openCount before.incidents = openCount incidents + 1)
      (none : recordingOf zone entry = none) (noFork : ¬ Forks zone entry)
      (noExit : ¬ Clears zone entry) :
      Effect zone entry before
        { before with
          incidents
          safeMode := { before.safeMode with
            unacknowledgedCount := before.safeMode.unacknowledgedCount - 1 } }
  | exited (settled : openCount before.incidents = 0) (clears : Clears zone entry)
      (none : recordingOf zone entry = none) (noFork : ¬ Forks zone entry) :
      Effect zone entry before
        { before with
          safeMode := { active := false, triggerSeq := .none, unacknowledgedCount := 0 } }

section Calls

variable (detector : ForkDetector) (input : RecordCheckpointInput)

def existing : Option CheckpointHistoryEntry :=
  (detector.zoneState input.zone).history.get? input.checkpoint.checkpointSeq

theorem recordCheckpoint_fork {held : CheckpointHistoryEntry}
    (known : detector.existing input = some held)
    (differs : held.checkpointId ≠ input.checkpoint.checkpointId) :
    let state := detector.zoneState input.zone
    let report := input.incidentReport held (state.incidentCounter + 1)
    ∃ events, detector.recordCheckpoint input =
      ({ detector with
          zones := detector.zones.insert input.zone { state with
            incidentCounter := state.incidentCounter + 1
            safeMode :=
              { active := true
                triggerSeq := some input.checkpoint.checkpointSeq
                unacknowledgedCount := state.safeMode.unacknowledgedCount + 1 }
            incidents := state.incidents ++ [report] }
          events },
        .error report) := by
  unfold existing zoneState at known
  refine ⟨(detector.recordCheckpoint input).1.events, ?_⟩
  simp only [recordCheckpoint, known, if_pos differs]
  rfl

theorem recordCheckpoint_repeated {held : CheckpointHistoryEntry}
    (known : detector.existing input = some held)
    (same : held.checkpointId = input.checkpoint.checkpointId) :
    detector.recordCheckpoint input =
      ({ detector with
          zones := detector.zones.insert input.zone (detector.zoneState input.zone) }, .ok ()) := by
  unfold existing zoneState at known
  simp only [recordCheckpoint, known, ne_eq, same, not_true_eq_false, if_false]
  rfl

theorem recordCheckpoint_stored (missing : detector.existing input = none) :
    let state := detector.zoneState input.zone
    ∃ events, detector.recordCheckpoint input =
      ({ detector with
          zones := detector.zones.insert input.zone { state with
            history := (state.history.insert input.checkpoint.checkpointSeq
              input.historyEntry).trim state.maxHistory }
          events },
        .ok ()) := by
  unfold existing zoneState at missing
  refine ⟨(detector.recordCheckpoint input).1.events, ?_⟩
  simp only [recordCheckpoint, missing, ZoneState.trimHistory_fst]
  rfl

theorem recordCheckpoint_error_iff :
    (∃ report, (detector.recordCheckpoint input).2 = .error report) ↔
      ∃ held, detector.existing input = some held ∧
        held.checkpointId ≠ input.checkpoint.checkpointId := by
  cases known : detector.existing input with
  | none =>
    obtain ⟨events, done⟩ := detector.recordCheckpoint_stored input known
    simp [done]
  | some held =>
    by_cases same : held.checkpointId = input.checkpoint.checkpointId
    · simp [detector.recordCheckpoint_repeated input known same, same]
    · obtain ⟨events, done⟩ := detector.recordCheckpoint_fork input known same
      simp [done, same]

end Calls

theorem not_clears_of_recordCheckpoint {zone : String} {detector : ForkDetector}
    {input : RecordCheckpointInput} :
    ¬ Clears zone (record perform detector (.recordCheckpoint input)) := by
  rintro ⟨⟨_, called⟩, _⟩
  cases called

theorem effect_recordCheckpoint_other {zone : String} {detector : ForkDetector}
    {input : RecordCheckpointInput} (other : input.zone ≠ zone) :
    Effect zone (record perform detector (.recordCheckpoint input)) (detector.zoneState zone)
      (detector.zoneState zone) := by
  refine .idle ?_ ?_ fun clears => absurd clears not_clears_of_recordCheckpoint
  · unfold recordingOf
    split
    next called _ =>
      cases called
      exact if_neg other
    next => rfl
  · rintro ⟨_, _, called, own, _⟩
    cases called
    exact other own

variable (detector : ForkDetector)

theorem effect_recordCheckpoint (input : RecordCheckpointInput) (zone : String) :
    Effect zone (record perform detector (.recordCheckpoint input)) (detector.zoneState zone)
      ((detector.recordCheckpoint input).1.zoneState zone) := by
  have recorded : (detector.recordCheckpoint input).2 = .ok () →
      recordingOf input.zone (record perform detector (.recordCheckpoint input)) =
          some (input.checkpoint.checkpointSeq, input.historyEntry) ∧
        ¬ Forks input.zone (record perform detector (.recordCheckpoint input)) := by
    intro ok
    simp only [recordingOf, Forks, record, perform, ok, if_true, true_and]
    rintro ⟨_, _, _, _, outcome⟩
    cases outcome
  cases known : detector.existing input with
  | none =>
    obtain ⟨events, done⟩ := detector.recordCheckpoint_stored input known
    obtain ⟨logged, noFork⟩ := recorded (congrArg Prod.snd done)
    rw [done, zoneState_insert]
    split
    next own =>
      subst own
      exact .stored logged known noFork not_clears_of_recordCheckpoint
    next other => exact effect_recordCheckpoint_other (Ne.symm other)
  | some held =>
    by_cases same : held.checkpointId = input.checkpoint.checkpointId
    · have done := detector.recordCheckpoint_repeated input known same
      obtain ⟨logged, noFork⟩ := recorded (congrArg Prod.snd done)
      rw [done, zoneState_insert]
      split
      next own =>
        subst own
        exact .repeated logged known noFork not_clears_of_recordCheckpoint
      next other => exact effect_recordCheckpoint_other (Ne.symm other)
    · obtain ⟨events, done⟩ := detector.recordCheckpoint_fork input known same
      rw [done, zoneState_insert]
      split
      next own =>
        subst own
        refine .forked ⟨input, _, rfl, rfl, congrArg _ (congrArg Prod.snd done)⟩ ?_ rfl
        simp only [recordingOf, record, perform, done]
      next other => exact effect_recordCheckpoint_other (Ne.symm other)

theorem quiet_of_other_call (entry : Entry)
    (called : ∀ input, entry.call ≠ .recordCheckpoint input) :
    recordingOf zone entry = none ∧ ¬ Forks zone entry := by
  constructor
  · unfold recordingOf
    split
    next input same _ => exact absurd same (called input)
    next => rfl
  · rintro ⟨input, _, same, _⟩
    exact called input same

theorem effect_acknowledgeIncident (changed incidentId zone : String) :
    Effect zone (record perform detector (.acknowledgeIncident changed incidentId))
      (detector.zoneState zone)
      ((detector.acknowledgeIncident changed incidentId).1.zoneState zone) := by
  obtain ⟨none, noFork⟩ := quiet_of_other_call zone
    (record perform detector (.acknowledgeIncident changed incidentId)) nofun
  have noExit : ¬ Clears zone
      (record perform detector (.acknowledgeIncident changed incidentId)) := by
    rintro ⟨⟨_, called⟩, _⟩
    cases called
  have idle : Effect zone (record perform detector (.acknowledgeIncident changed incidentId))
      (detector.zoneState zone) (detector.zoneState zone) :=
    .idle none noFork fun clears => absurd clears noExit
  unfold acknowledgeIncident
  cases known : detector.zones.get? changed with
  | none => exact idle
  | some state =>
    cases found : acknowledgeFirst incidentId state.incidents with
    | none => simpa only [found] using idle
    | some incidents =>
      simp only [found]
      rw [zoneState_insert]
      split
      next own =>
        subst own
        have current : detector.zoneState zone = state := by
          rw [zoneState, known, getD_some]
        rw [current]
        exact .acknowledged (openCount_acknowledgeFirst found) none noFork noExit
      next => exact idle

theorem effect_exitSafeMode (changed traceId zone : String) :
    Effect zone (record perform detector (.exitSafeMode changed traceId))
      (detector.zoneState zone) ((detector.exitSafeMode changed traceId).1.zoneState zone) := by
  obtain ⟨none, noFork⟩ := quiet_of_other_call zone
    (record perform detector (.exitSafeMode changed traceId)) nofun
  have idle (inactive : zone = changed → (detector.unacknowledgedIncidents zone) = [] →
      (detector.zoneState zone).safeMode.active = false) :
      Effect zone (record perform detector (.exitSafeMode changed traceId))
        (detector.zoneState zone) (detector.zoneState zone) := by
    refine .idle none noFork ?_
    rintro ⟨⟨_, called⟩, settled⟩
    cases called
    exact inactive rfl settled
  unfold exitSafeMode
  cases known : detector.zones.get? changed with
  | none =>
    refine idle fun own _ => ?_
    rw [zoneState, own, known]
    rfl
  | some state =>
    have current : zone = changed → detector.zoneState zone = state := by
      rintro rfl
      rw [zoneState, known, getD_some]
    dsimp only
    split
    next off => exact idle fun own _ => by simpa [current own] using off
    next on =>
      split
      next pending =>
        refine idle fun own settled => ?_
        have none := detector.unacknowledgedIncidents_length zone
        rw [settled, current own] at none
        exact absurd none.symm (Nat.ne_of_gt pending)
      next settled =>
        have zero : openCount state.incidents = 0 := Nat.eq_zero_of_not_pos settled
        rw [zoneState_insert]
        split
        next own =>
          subst own
          rw [← current rfl] at zero ⊢
          refine .exited zero ⟨⟨traceId, rfl⟩, ?_⟩ none noFork
          rw [← List.length_eq_zero_iff]
          exact (detector.unacknowledgedIncidents_length zone).trans zero
        next other => exact idle fun own _ => absurd own other

theorem effect_perform (call : Call) (zone : String) :
    Effect zone (record perform detector call) (detector.zoneState zone)
      ((perform detector call).1.zoneState zone) := by
  cases call with
  | recordCheckpoint input => exact effect_recordCheckpoint detector input zone
  | acknowledgeIncident changed incidentId =>
    exact effect_acknowledgeIncident detector changed incidentId zone
  | exitSafeMode changed traceId => exact effect_exitSafeMode detector changed traceId zone

structure ZoneHolds (maxHistory : Nat) (zone : String) (state : ZoneState) (past : List Entry) :
    Prop where
  size : state.maxHistory = maxHistory
  recorded : ∀ seq, state.history.get? seq = windowOf maxHistory (recordings zone past) seq
  safeMode : state.safeMode.active = true ↔ Since (Forks zone) (Clears zone) past
  counted : state.safeMode.unacknowledgedCount = openCount state.incidents

theorem zoneHolds_new (maxHistory : Nat) (zone : String) :
    ZoneHolds maxHistory zone (.new maxHistory) [] where
  size := rfl
  recorded _ := rfl
  safeMode := iff_of_false nofun not_since_nil
  counted := rfl

theorem recordings_append (past : List Entry) (entry : Entry) : recordings zone (past ++ [entry]) =
      recordings zone past ++ (recordingOf zone entry).toList := by
  rw [recordings, List.filterMap_append]
  cases called : recordingOf zone entry <;> simp [called, recordings]

theorem ZoneHolds.step {maxHistory : Nat} {zone : String} {before after : ZoneState}
    {past : List Entry} {entry : Entry} (holds : ZoneHolds maxHistory zone before past)
    (effect : Effect zone entry before after) :
    ZoneHolds maxHistory zone after (past ++ [entry]) := by
  obtain ⟨size, recorded, safeMode, counted⟩ := holds
  -- A call that neither forks nor clears leaves safe mode as it was.
  have lasting (noFork : ¬ Forks zone entry) (noExit : ¬ Clears zone entry) :
      before.safeMode.active = true ↔ Since (Forks zone) (Clears zone) (past ++ [entry]) := by
    rw [since_append_singleton, safeMode]
    tauto
  have unlogged (none : recordingOf zone entry = none) :
      recordings zone (past ++ [entry]) = recordings zone past := by
    rw [recordings_append, none, toList_none, List.append_nil]
  cases effect with
  | idle none noFork inactive =>
    refine ⟨size, by rwa [unlogged none], ?_, counted⟩
    rw [since_append_singleton, ← safeMode]
    cases active : before.safeMode.active with
    | false => simp [noFork]
    | true => simpa [noFork, active] using inactive
  | @repeated seq again held logged known noFork noExit =>
    refine ⟨size, fun other => ?_, lasting noFork noExit, counted⟩
    rw [recordings_append, logged, toList_some,
      windowOf_append_held again ((recorded seq).symm.trans known)]
    exact recorded other
  | @stored seq first logged missing noFork noExit =>
    refine ⟨size, fun other => ?_, lasting noFork noExit, counted⟩
    rw [recordings_append, logged, toList_some, size]
    exact get?_trim_insert recorded ((recorded seq).symm.trans missing) first other
  | @forked report counter seq fork none isOpen =>
    refine ⟨size, by rwa [unlogged none], ?_, ?_⟩
    · exact iff_of_true rfl (since_append_singleton.mpr (.inl fork))
    · simp [openCount, isOpen] at counted ⊢
      exact counted
  | acknowledged fewer none noFork noExit =>
    refine ⟨size, by rwa [unlogged none], lasting noFork noExit, ?_⟩
    rw [counted, fewer]
    rfl
  | exited settled clears none noFork =>
    refine ⟨size, by rwa [unlogged none], ?_, settled.symm⟩
    rw [since_append_singleton]
    simp [noFork, clears]

theorem zoneHolds_run (maxHistory : Nat) (calls : List Call) (zone : String) :
    ZoneHolds maxHistory zone ((final perform (new maxHistory) calls).zoneState zone)
      (Library.history perform (new maxHistory) calls) :=
  history_induction
    (fun detector past => ZoneHolds maxHistory zone (detector.zoneState zone) past)
    (zoneHolds_new maxHistory zone)
    (fun detector _ call holds => holds.step (effect_perform detector call zone)) calls

theorem enforceSafeMode_error_iff (zone operation traceId : String) :
    (∃ error, (detector.enforceSafeMode zone operation traceId).2 = .error error) ↔
      detector.isSafeMode zone = true := by
  unfold enforceSafeMode isSafeMode
  cases detector.zones.get? zone with
  | none => simp
  | some state => cases active : state.safeMode.active <;> simp [active]

/-- Operations in a zone are denied from a fork to an exit with no open incident. -/
theorem run_denies_iff (maxHistory : Nat) (calls : List Call) (zone operation traceId : String) :
    (∃ error, ((final perform (new maxHistory) calls).enforceSafeMode zone operation traceId).2 =
        .error error) ↔
      Since (Forks zone) (Clears zone) (Library.history perform (new maxHistory) calls) := by
  rw [enforceSafeMode_error_iff, isSafeMode_eq]
  exact (zoneHolds_run maxHistory calls zone).safeMode

/-- Fork detection is exact within its window. -/
theorem run_exact (maxHistory : Nat) (calls : List Call) :
    let detector := final perform (new maxHistory) calls
    let past := Library.history perform (new maxHistory) calls
    (∀ zone seq, (detector.history zone).bind (·.get? seq) =
      windowOf maxHistory (recordings zone past) seq) ∧
    (∀ input, (∃ report, (detector.recordCheckpoint input).2 = .error report) ↔
      ∃ first, windowOf maxHistory (recordings input.zone past) input.checkpoint.checkpointSeq =
        some first ∧ first.checkpointId ≠ input.checkpoint.checkpointId) ∧
    (∀ zone, detector.isSafeMode zone = true ↔ Since (Forks zone) (Clears zone) past) ∧
    ∀ zone, ((detector.safeModeState zone).map (·.unacknowledgedCount)).getD 0 =
      (detector.unacknowledgedIncidents zone).length := by
  have holds := zoneHolds_run maxHistory calls
  refine ⟨fun zone seq => ?_, fun input => ?_, fun zone => ?_, fun zone => ?_⟩
  · rw [history_get?]
    exact (holds zone).recorded seq
  · rw [recordCheckpoint_error_iff, existing, (holds input.zone).recorded]
  · rw [isSafeMode_eq]
    exact (holds zone).safeMode
  · rw [unacknowledgedCount_eq, unacknowledgedIncidents_length]
    exact (holds zone).counted

end ForkDetector

end FrankenEngine.Checkpoint
