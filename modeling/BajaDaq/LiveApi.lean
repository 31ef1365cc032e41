import BajaDaq.AppLifecycle
import BajaDaq.DownloadBuffers
import BajaDaq.HexText
import BajaDaq.JsonText
import BajaDaq.LiveHistory
import BajaDaq.RefusingSinks

/-!
# Live viewing over HTTP

The handlers of `/api/live/start`, `/api/live/samples` and `/api/live/stop`, from the text of the
token in a request to the text of the answer. What they answer is said in terms of the sessions of
the history, and of the values that the texts are read back as.
-/

namespace BajaDaq.LiveApi
open AppProtocol DecimalText HexText JsonText LiveHistory LiveViewing RefusingSinks
open AppLifecycle (AppControlResult)

def liveDataLeaseSeconds : ℕ := 10

/-- The status line, the text of the body and whether the body is ended. -/
structure Answer where
  status : Text
  body : Text
  ended : Bool
  deriving DecidableEq, Repr

def okStatus : Text := "200 OK".toList
def badRequest : Text := "400 Bad Request".toList
def forbidden : Text := "403 Forbidden".toList
def conflict : Text := "409 Conflict".toList
def serverError : Text := "500 Internal Server Error".toList
def unavailable : Text := "503 Service Unavailable".toList

def sendJsonError (status message : Text) : Answer :=
  let error := TracedBuffers.value (DownloadBuffers.sendJsonError status message)
  ⟨error.status, error.body, true⟩

/-- `value` is what the query has for `token`, if it fits its buffer of 16 bytes. -/
def requestToken (value : Option Text) : Option UInt32 :=
  value.bind fun value =>
    let parsed := strtoul value
    if value = [] ∨ parsed.2 ≠ [] ∨ parsed.1 = 0 then none else some parsed.1

/-- `acquired` tells whether the lifecycle mutex was obtained in time, `running` the state of the
logger. -/
def appControlStartLiveData (acquired running : Bool) (d : LiveData) (nowUs : ℤ)
    (random : UInt32) : LiveData × AppControlResult × Option UInt32 :=
  if !acquired then (d, .failed, none)
  else if !running then (d, .conflict, none)
  else
    let started := liveDataStart d nowUs random
    match started.2.1 with
    | .busy => (started.1, .busy, started.2.2)
    | .ok => (started.1, .ok, started.2.2)
    | _ => (started.1, .failed, started.2.2)

def notRecordingMessage : Text := "Live data is available only while recording".toList
def otherViewerMessage : Text := "Another live viewer is active".toList
def startFailedMessage : Text := "Unable to start live data".toList
def missingTokenMessage : Text := "Missing or invalid token".toList
def disabledMessage : Text := "Live data is disabled".toList
def invalidTokenMessage : Text := "Invalid live viewer token".toList

def tokenOpening : Text := "\x7b\"token\":\"".toList
def leaseOpening : Text := "\",\"lease_seconds\":".toList

def startText (token : UInt32) : Text :=
  tokenOpening ++ lowerHexText 8 token.toNat ++ leaseOpening ++
    unsignedText liveDataLeaseSeconds ++ ['\x7d']

def liveStartHandler (acquired running : Bool) (d : LiveData) (nowUs : ℤ) (random : UInt32) :
    LiveData × Answer :=
  let started := appControlStartLiveData acquired running d nowUs random
  (started.1,
    match started.2 with
    | (.conflict, _) => sendJsonError conflict notRecordingMessage
    | (.busy, _) => sendJsonError unavailable otherViewerMessage
    | (.ok, some token) => ⟨okStatus, (snprintf 96 (startText token)).1, true⟩
    | _ => sendJsonError serverError startFailedMessage)

def canIdOpening : Text := "\x7b\"can_id\":".toList
def valueOpening : Text := ",\"value\":".toList
def timestampOpening : Text := ",\"timestamp_ms\":".toList
def sequenceOpening : Text := ",\"sequence\":".toList

def sampleText (first : Bool) (sample : LiveSample) : Text :=
  (if first then [] else [',']) ++ canIdOpening ++ unsignedText sample.canId.toNat ++
    valueOpening ++ signedText sample.value.toInt ++ timestampOpening ++
    unsignedText sample.timestampMs.toNat ++ sequenceOpening ++
    unsignedText sample.sequence.toNat ++ ['\x7d']

/-- The loop over the samples, and whether it has come to its end. -/
def sendSamples (request : Sink Text) (first : Bool) : List LiveSample → Sink Text × Bool
  | [] => (request, true)
  | sample :: samples =>
    if !sample.valid then sendSamples request first samples
    else
      let item := snprintf 160 (sampleText first sample)
      if 160 ≤ item.2 then (request, false)
      else
        let sent := request.put item.1
        if sent.2 then sendSamples sent.1 false samples else sent

def samplesOpening : Text := "\x7b\"samples\":[".toList
def samplesClosing : Text := "]\x7d".toList

def sendSnapshot (request : Sink Text) (samples : List LiveSample) : Sink Text × Bool :=
  let opening := request.put samplesOpening
  if !opening.2 then opening
  else
    let listed := sendSamples opening.1 true samples
    if !listed.2 then listed
    else
      let closing := listed.1.put samplesClosing
      if !closing.2 then closing else closing.1.put []

/-- `accepts` are the chunks that the connection takes. -/
def liveSamplesHandler (d : LiveData) (value : Option Text) (nowUs : ℤ) (accepts : ℕ → Bool) :
    LiveData × Answer :=
  match requestToken value with
  | none => (d, sendJsonError badRequest missingTokenMessage)
  | some token =>
    let copied := liveDataSnapshot d token liveDataSignalCount nowUs
    (copied.1,
      match copied.2 with
      | (.disabled, _) => sendJsonError conflict disabledMessage
      | (.ok, some samples) =>
        let sent := sendSnapshot ⟨[], accepts⟩ samples
        ⟨okStatus, sent.1.taken.flatten, sent.2⟩
      | _ => sendJsonError forbidden invalidTokenMessage)

def stoppedText : Text := "\x7b\"live_enabled\":false\x7d".toList

def liveStopHandler (d : LiveData) (value : Option Text) (nowUs : ℤ) : LiveData × Answer :=
  match requestToken value with
  | none => (d, sendJsonError badRequest missingTokenMessage)
  | some token =>
    let stopped := liveDataStop d token nowUs
    (stopped.1,
      match stopped.2 with
      | .invalidToken => sendJsonError forbidden invalidTokenMessage
      | .disabled => sendJsonError conflict disabledMessage
      | _ => ⟨okStatus, stoppedText, true⟩)

inductive Request where
  | start (acquired running : Bool) (random : UInt32)
  | samples (value : Option Text) (accepts : ℕ → Bool)
  | stop (value : Option Text)

def respond (d : LiveData) (nowUs : ℤ) : Request → LiveData × Answer
  | .start acquired running random => liveStartHandler acquired running d nowUs random
  | .samples value accepts => liveSamplesHandler d value nowUs accepts
  | .stop value => liveStopHandler d value nowUs

/-- A request, or what the rest of the master does with the live data. -/
inductive Visit where
  | request (r : Request)
  | record (message : CanMessage)
  | forceStop
  | isEnabled

def Visit.run (d : LiveData) (nowUs : ℤ) : Visit → LiveData
  | .request r => (respond d nowUs r).1
  | .record message => liveDataRecord d message nowUs
  | .forceStop => liveDataForceStop d
  | .isEnabled => (liveDataIsEnabled d nowUs).1

/-- The state after the visits, each at its time. -/
def after (visits : List (ℤ × Visit)) : LiveData :=
  visits.foldl (fun d visit => visit.2.run d visit.1) .init

def key (text : Text) (h : text.all isStringChar = true) : JsonString := ⟨text, h⟩

def canIdKey : JsonString := key "can_id".toList (by decide)
def valueKey : JsonString := key "value".toList (by decide)
def timestampKey : JsonString := key "timestamp_ms".toList (by decide)
def sequenceKey : JsonString := key "sequence".toList (by decide)
def samplesKey : JsonString := key "samples".toList (by decide)
def tokenKey : JsonString := key "token".toList (by decide)
def leaseKey : JsonString := key "lease_seconds".toList (by decide)
def liveEnabledKey : JsonString := key "live_enabled".toList (by decide)
def errorKey : JsonString := key "error".toList (by decide)

def sampleJson (sample : LiveSample) : Json :=
  .object [(canIdKey, .number sample.canId.toNat), (valueKey, .number sample.value.toInt),
    (timestampKey, .number sample.timestampMs.toNat), (sequenceKey, .number sample.sequence.toNat)]

def samplesJson (samples : List LiveSample) : Json :=
  .object [(samplesKey, .array ((samples.filter LiveSample.valid).map sampleJson))]

def startedJson (token : JsonString) : Json :=
  .object [(tokenKey, .string token), (leaseKey, .number liveDataLeaseSeconds)]

def stoppedJson : Json := .object [(liveEnabledKey, .bool false)]

def errorJson (message : JsonString) : Json := .object [(errorKey, .string message)]

theorem sampleText_eq (first : Bool) (sample : LiveSample) :
    sampleText first sample = (if first then [] else [',']) ++ render (sampleJson sample) := by
  have hcanId : canIdOpening = '\x7b' :: quoted canIdKey ++ [':'] := rfl
  have hvalue : valueOpening = ',' :: quoted valueKey ++ [':'] := rfl
  have htimestamp : timestampOpening = ',' :: quoted timestampKey ++ [':'] := rfl
  have hsequence : sequenceOpening = ',' :: quoted sequenceKey ++ [':'] := rfl
  simp [sampleText, sampleJson, render, renderMembers, delimited, JsonText.after, hcanId, hvalue,
    htimestamp, hsequence]

theorem length_sampleText_lt (first : Bool) (sample : LiveSample) :
    (sampleText first sample).length < 160 := by
  have hcomma : (if first then [] else [',']).length ≤ 1 := by cases first <;> decide
  have hid := (length_unsignedText_le (k := 10) (by decide)).mpr
    (Nat.lt_trans sample.canId.toNat_lt (by decide))
  have hvalue : (signedText sample.value.toInt).length ≤ 10 + 1 :=
    length_signedText_le (by decide) (by
      have hlow := sample.value.le_toInt
      have hhigh := sample.value.toInt_lt
      omega)
  have htime := (length_unsignedText_le (k := 10) (by decide)).mpr
    (Nat.lt_trans sample.timestampMs.toNat_lt (by decide))
  have hsequence := (length_unsignedText_le (k := 10) (by decide)).mpr
    (Nat.lt_trans sample.sequence.toNat_lt (by decide))
  have hpieces : canIdOpening.length = 10 ∧ valueOpening.length = 9 ∧
      timestampOpening.length = 16 ∧ sequenceOpening.length = 12 := by decide
  simp only [sampleText, List.length_append, List.length_singleton, hpieces]
  omega

/-- The chunks that the loop sends. -/
def sampleChunks (first : Bool) : List LiveSample → List Text
  | [] => []
  | sample :: samples =>
    if !sample.valid then sampleChunks first samples
    else sampleText first sample :: sampleChunks false samples

theorem sendSamples_putAll (request : Sink Text) (first : Bool) (samples : List LiveSample) :
    sendSamples request first samples = request.putAll (sampleChunks first samples) := by
  induction samples generalizing request first with
  | nil => rfl
  | cons sample samples ih =>
    rw [sendSamples, sampleChunks]
    split
    next => exact ih request first
    next =>
      have hlength := length_sampleText_lt first sample
      have hitem : snprintf 160 (sampleText first sample) =
          (sampleText first sample, (sampleText first sample).length) :=
        Prod.ext (snprintf_of_lt hlength) rfl
      simp only [hitem, if_neg (Nat.not_le.mpr hlength), Sink.putAll, ih]

theorem flatten_sampleChunks (samples : List LiveSample) :
    (sampleChunks false samples).flatten ++ [']'] =
        JsonText.after ']' ((samples.filter LiveSample.valid).map (render ∘ sampleJson)) ∧
      (sampleChunks true samples).flatten ++ [']'] =
        delimited ']' ((samples.filter LiveSample.valid).map (render ∘ sampleJson)) := by
  induction samples with
  | nil => exact ⟨rfl, rfl⟩
  | cons sample samples ih =>
    cases hvalid : sample.valid with
    | false => simpa [sampleChunks, hvalid] using ih
    | true => simp [sampleChunks, hvalid, sampleText_eq, JsonText.after, delimited, ih.1]

/-- The chunks of a snapshot, with the empty one that ends the answer. -/
def snapshotChunks (samples : List LiveSample) : List Text :=
  samplesOpening :: sampleChunks true samples ++ [samplesClosing] ++ [[]]

theorem sendSnapshot_putAll (request : Sink Text) (samples : List LiveSample) :
    sendSnapshot request samples = request.putAll (snapshotChunks samples) := by
  rw [snapshotChunks, List.cons_append, List.cons_append, Sink.putAll, sendSnapshot]
  cases (request.put samplesOpening).2 with
  | false => simp
  | true =>
    simp only [Bool.not_true, Bool.false_eq_true, if_false, if_true, sendSamples_putAll]
    rw [List.append_assoc, Sink.putAll_append]
    cases ((request.put samplesOpening).1.putAll (sampleChunks true samples)).2 with
    | false => simp
    | true =>
      simp only [Bool.not_true, Bool.false_eq_true, if_false, if_true, List.singleton_append]
      rw [Sink.putAll, Sink.putAll_singleton]
      cases (Sink.put _ samplesClosing).2 with
      | false => simp
      | true => simp

theorem flatten_snapshotChunks (samples : List LiveSample) :
    (snapshotChunks samples).flatten = render (samplesJson samples) := by
  have hopening : samplesOpening = '\x7b' :: quoted samplesKey ++ [':', '['] := rfl
  have hclosing : samplesClosing = [']'] ++ ['\x7d'] := rfl
  have hitems := (flatten_sampleChunks samples).2
  calc (snapshotChunks samples).flatten
      = samplesOpening ++ ((sampleChunks true samples).flatten ++ [']']) ++ ['\x7d'] := by
        simp [snapshotChunks, hclosing]
    _ = render (samplesJson samples) := by
        simp [hitems, hopening, samplesJson, render, renderItems_eq, renderMembers, delimited,
          JsonText.after]

theorem isStringChar_of_isHexDigit {c : Char} (h : isHexDigit c = true) :
    isStringChar c = true := by
  have hquote : c ≠ '"' := by
    rintro rfl
    exact absurd h (by decide)
  have hbackslash : c ≠ '\\' := by
    rintro rfl
    exact absurd h (by decide)
  have hlow : 32 ≤ c.toNat := by
    have hzero : '0'.toNat = 48 := rfl
    simp only [isHexDigit, Char.isDigit_iff_toNat, Bool.or_eq_true, Bool.and_eq_true,
      decide_eq_true_eq] at h
    omega
  simp [isStringChar, hquote, hbackslash, hlow]

/-- The token as it is written in the answer. -/
def tokenText (token : UInt32) : JsonString :=
  ⟨lowerHexText 8 token.toNat, List.all_eq_true.mpr fun c hc =>
    isStringChar_of_isHexDigit ((lowerHexText_hex 8 token.toNat).1 c hc)⟩

theorem startText_eq (token : UInt32) :
    startText token = render (startedJson (tokenText token)) := by
  have htoken : tokenOpening = '\x7b' :: quoted tokenKey ++ [':', '"'] := rfl
  have hlease : leaseOpening = '"' :: ',' :: quoted leaseKey ++ [':'] := rfl
  have hquoted : quoted (tokenText token) =
      '"' :: (lowerHexText 8 token.toNat ++ ['"']) := rfl
  simp [startText, startedJson, render, renderMembers, delimited, JsonText.after, htoken, hlease,
    hquoted]

theorem length_startText_lt (token : UInt32) : (startText token).length < 96 := by
  have hdigits := length_lowerHexText (w := 8) (by decide) token.toNat_lt
  have hpieces : tokenOpening.length = 10 ∧ leaseOpening.length = 18 ∧
      (unsignedText liveDataLeaseSeconds).length = 2 := by decide
  simp only [startText, List.length_append, List.length_singleton, hpieces, hdigits]
  omega

theorem sendJsonError_eq (status : Text) {message : JsonString}
    (h : message.text.length < 140) :
    sendJsonError status message.text = ⟨status, render (errorJson message), true⟩ := by
  have hopening : DownloadBuffers.errorOpening = '\x7b' :: quoted errorKey ++ [':', '"'] := rfl
  have hclosing : DownloadBuffers.errorClosing = ['"', '\x7d'] := rfl
  have hbody : DownloadBuffers.errorOpening ++ message.text ++ DownloadBuffers.errorClosing =
      render (errorJson message) := by
    simp [errorJson, render, renderMembers, delimited, JsonText.after, hopening, hclosing,
      quoted]
  have hlength : (render (errorJson message)).length < 160 := by
    have hpieces : DownloadBuffers.errorOpening.length = 10 ∧
        DownloadBuffers.errorClosing.length = 2 := by decide
    simp only [← hbody, List.length_append, hpieces]
    omega
  have hvalue : TracedBuffers.value (DownloadBuffers.sendJsonError status message.text) =
      ⟨status, (snprintf 160 (DownloadBuffers.errorOpening ++ message.text ++
        DownloadBuffers.errorClosing)).1⟩ := rfl
  rw [sendJsonError, hvalue, hbody, snprintf_of_lt hlength]

/-- The query has a text that spells the token. -/
def Names (value : Option Text) (token : UInt32) : Prop :=
  token ≠ 0 ∧ ∃ text, value = some text ∧ Spells text token

theorem requestToken_iff {value : Option Text} {token : UInt32} :
    requestToken value = some token ↔ Names value token := by
  cases value with
  | none => simp [requestToken, Names]
  | some text =>
    by_cases htext : text = []
    · subst htext
      refine iff_of_false (by simp [requestToken]) ?_
      rintro ⟨-, text, htext, blanks, sign, radix, digits, rfl, -, -, -, hne, -⟩
      simp [hne] at htext
    · have hspells := @strtoul_iff text htext token
      have hsome : requestToken (some text) = some token ↔
          token ≠ 0 ∧ strtoul text = (token, []) := by
        simp only [requestToken, Option.bind_some]
        split
        next hnone =>
          refine iff_of_false nofun ?_
          rintro ⟨hne, hparsed⟩
          simp [hparsed, htext, hne] at hnone
        next hparsed =>
          simp only [htext, false_or, not_or, not_not] at hparsed
          rw [Option.some_inj, Prod.ext_iff]
          constructor
          · rintro rfl
            exact ⟨hparsed.2, rfl, hparsed.1⟩
          · exact fun h => h.2.1
      rw [hsome, hspells]
      simp [Names]

theorem names_tokenText {token : UInt32} (h : token ≠ 0) :
    Names (some (tokenText token).text) token := by
  obtain ⟨hdigits, hnumber⟩ := lowerHexText_hex 8 token.toNat
  have hlength := length_lowerHexText (w := 8) (by decide) token.toNat_lt
  have hlt := token.toNat_lt
  refine ⟨h, _, rfl, [], [], [], lowerHexText 8 token.toNat, rfl, nofun, by simp, by simp, ?_,
    hdigits, ?_⟩
  · intro hnil
    rw [hnil] at hlength
    cases hlength
  · rw [hnumber, ulong, if_neg (by rw [ulongMax]; omega)]
    exact UInt32.ofNat_toNat.symm

/-- The calls that a visit makes of the live data. -/
def Request.action : Request → Option Action
  | .start acquired running random => if acquired && running then some (.start random) else none
  | .samples value _ =>
    (requestToken value).map fun token => .snapshot token liveDataSignalCount
  | .stop value => (requestToken value).map .stop

def Visit.action : Visit → Option Action
  | .request r => r.action
  | .record message => some (.record message)
  | .forceStop => some .forceStop
  | .isEnabled => some .isEnabled

def calls (visits : List (ℤ × Visit)) : List Call :=
  visits.filterMap fun visit => visit.2.action.map (Call.mk visit.1)

def history (visits : List (ℤ × Visit)) : List Event := (Viewer.after (calls visits)).history

/-- The text that a request has for the token. -/
def Request.value : Request → Option (Option Text)
  | .start .. => none
  | .samples value _ | .stop value => some value

def errorOf (message : Text) (h : message.all isStringChar = true) : Json :=
  errorJson (key message h)

/-- The status and the value of an answer, between the histories before and after its request. -/
inductive Answers (before after : List Event) (nowUs : ℤ) : Request → Text → Json → Prop
  | mutexBusy {running : Bool} {random : UInt32} :
    Answers before after nowUs (.start false running random) serverError
      (errorOf startFailedMessage (by decide))
  | notRecording {random : UInt32} :
    Answers before after nowUs (.start true false random) conflict
      (errorOf notRecordingMessage (by decide))
  | otherViewer {random : UInt32} {s : Session} (hs : Session.OpenAt before nowUs s) :
    Answers before after nowUs (.start true true random) unavailable
      (errorOf otherViewerMessage (by decide))
  | started {random token : UInt32} {text : JsonString}
      (hclosed : ¬ ∃ s, Session.OpenAt before nowUs s)
      (hopen : Session.OpenAt after nowUs ⟨token, nowUs, []⟩)
      (htext : Names (some text.text) token) :
    Answers before after nowUs (.start true true random) okStatus (startedJson text)
  | noToken {r : Request} {value : Option Text} (hr : r.value = some value)
      (hvalue : ¬ ∃ token, Names value token) :
    Answers before after nowUs r badRequest (errorOf missingTokenMessage (by decide))
  | disabled {r : Request} {value : Option Text} {token : UInt32} (hr : r.value = some value)
      (hvalue : Names value token) (hclosed : ¬ ∃ s, Session.OpenAt before nowUs s) :
    Answers before after nowUs r conflict (errorOf disabledMessage (by decide))
  | notOwner {r : Request} {value : Option Text} {token : UInt32} {s : Session}
      (hr : r.value = some value) (hvalue : Names value token)
      (hs : Session.OpenAt before nowUs s) (hne : s.token ≠ token) :
    Answers before after nowUs r forbidden (errorOf invalidTokenMessage (by decide))
  | samples {value : Option Text} {accepts : ℕ → Bool} {s : Session}
      (hvalue : Names value s.token) (hs : Session.OpenAt before nowUs s) :
    Answers before after nowUs (.samples value accepts) okStatus (samplesJson s.samples)
  | stopped {value : Option Text} {s : Session} (hvalue : Names value s.token)
      (hs : Session.OpenAt before nowUs s) (hclosed : ¬ ∃ s, Session.OpenAt after nowUs s) :
    Answers before after nowUs (.stop value) okStatus stoppedJson

theorem run_eq (d : LiveData) (nowUs : ℤ) (visit : Visit) :
    visit.run d nowUs = (visit.action.map (Call.mk nowUs)).elim d fun c => (perform d c).1 := by
  cases visit with
  | request r =>
    cases r with
    | start acquired running random =>
      cases acquired with
      | false => rfl
      | true =>
        cases running with
        | false => rfl
        | true =>
          simp only [Visit.run, respond, liveStartHandler, appControlStartLiveData]
          simp only [Bool.not_true, Bool.false_eq_true, if_false]
          split <;> rfl
    | samples value accepts =>
      simp only [Visit.run, respond, liveSamplesHandler, Visit.action, Request.action]
      cases requestToken value <;> rfl
    | stop value =>
      simp only [Visit.run, respond, liveStopHandler, Visit.action, Request.action]
      cases requestToken value <;> rfl
  | record message => rfl
  | forceStop => rfl
  | isEnabled => rfl

theorem calls_append (visits : List (ℤ × Visit)) (visit : ℤ × Visit) :
    calls (visits ++ [visit]) = calls visits ++ (visit.2.action.map (Call.mk visit.1)).toList := by
  rw [calls, List.filterMap_append, calls]
  cases h : visit.2.action.map (Call.mk visit.1) <;> simp [h]

theorem after_eq (visits : List (ℤ × Visit)) :
    after visits = (Viewer.after (calls visits)).data := by
  induction visits using List.reverseRecOn with
  | nil => rfl
  | append_singleton visits visit ih =>
    have hafter : after (visits ++ [visit]) = visit.2.run (after visits) visit.1 := by
      simp [after]
    rw [hafter, run_eq, ih, calls_append]
    cases visit.2.action.map (Call.mk visit.1) with
    | none => simp
    | some c =>
      rw [Option.toList_some, Viewer.after_append_singleton]
      rfl

theorem times_sublist (visits : List (ℤ × Visit)) :
    ((calls visits).map Call.nowUs).Sublist (visits.map Prod.fst) := by
  induction visits with
  | nil => exact .slnil
  | cons visit visits ih =>
    rw [calls, List.filterMap_cons]
    cases visit.2.action with
    | none => exact ih.cons _
    | some action => exact ih.cons_cons _

/-- The visits are made at non-decreasing times, up to `nowUs`. -/
def InOrder (visits : List (ℤ × Visit)) (nowUs : ℤ) : Prop :=
  (visits.map Prod.fst ++ [nowUs]).Pairwise (· ≤ ·)

theorem refines_history {visits : List (ℤ × Visit)} {nowUs : ℤ} (h : InOrder visits nowUs) :
    Refines (history visits) nowUs (after visits) := by
  obtain ⟨hvisits, -, hlast⟩ := List.pairwise_append.mp h
  have htimes := times_sublist visits
  rw [after_eq]
  refine refines_after ?_ fun c hc => ?_
  · exact List.pairwise_map.mp (hvisits.sublist htimes)
  · exact hlast _ (htimes.subset (List.mem_map_of_mem hc)) nowUs (List.mem_singleton_self nowUs)

theorem history_append (visits : List (ℤ × Visit)) (nowUs : ℤ) (visit : Visit) {action : Action}
    (h : visit.action = some action) : history (visits ++ [(nowUs, visit)]) =
      history visits ++ [⟨⟨nowUs, action⟩, (perform (after visits) ⟨nowUs, action⟩).2⟩] := by
  rw [history, calls_append, h, Option.map_some, Option.toList_some,
    Viewer.after_append_singleton, after_eq]
  rfl

/-- The connection takes every chunk. -/
def Request.Accepted : Request → Prop
  | .samples _ accepts => ∀ n, accepts n = true
  | .start .. | .stop _ => True

/-- The body of an ended answer is read back as what the history allows. -/
structure Right (before after : List Event) (nowUs : ℤ) (r : Request) (answer : Answer) : Prop where
  allowed : answer.ended = true →
    ∃ json, parse answer.body = some json ∧ Answers before after nowUs r answer.status json
  ended : r.Accepted → answer.ended = true

section
variable {before after : List Event} {nowUs : ℤ} {r : Request}

theorem right_of_render {status : Text} {json : Json}
    (h : Answers before after nowUs r status json) :
    Right before after nowUs r ⟨status, render json, true⟩ :=
  ⟨fun _ => ⟨json, parse_render json, h⟩, fun _ => rfl⟩

theorem right_of_error {status message : Text} {hmessage : message.all isStringChar = true}
    (hlength : message.length < 140)
    (h : Answers before after nowUs r status (errorOf message hmessage)) :
    Right before after nowUs r (sendJsonError status message) := by
  have herror : sendJsonError status message =
      ⟨status, render (errorOf message hmessage), true⟩ :=
    @sendJsonError_eq status (key message hmessage) hlength
  rw [herror]
  exact right_of_render h

theorem right_start {visits : List (ℤ × Visit)} (acquired running : Bool) (random : UInt32)
    (h : Refines (history visits) nowUs (LiveApi.after visits)) :
    Right (history visits)
      (history (visits ++ [(nowUs, .request (.start acquired running random))])) nowUs
      (.start acquired running random)
      (liveStartHandler acquired running (LiveApi.after visits) nowUs random).2 := by
  cases acquired with
  | false => exact right_of_error (by decide) .mutexBusy
  | true =>
    cases running with
    | false => exact right_of_error (by decide) .notRecording
    | true =>
      have hhistory := history_append visits nowUs (.request (.start true true random)) rfl
      rcases h.expire (Int.le_refl nowUs) with ⟨s, hs, hlive⟩ | hidle
      · have hstart : (liveDataStart (LiveApi.after visits) nowUs random).2 = (.busy, none) := by
          simp only [liveDataStart, hs.cached]
          rfl
        have hanswer : (liveStartHandler true true (LiveApi.after visits) nowUs random).2 =
            sendJsonError unavailable otherViewerMessage := by
          simp only [liveStartHandler, appControlStartLiveData, hstart, Bool.not_true,
            Bool.false_eq_true, if_false]
        rw [hanswer]
        exact right_of_error (by decide) (.otherViewer (hs.openAt hlive))
      · generalize htoken : (if random = 0 then 1 else random) = token
        have hne : token ≠ 0 := by
          rw [← htoken]
          split_ifs with hzero
          · decide
          · exact hzero
        have hstart : (liveDataStart (LiveApi.after visits) nowUs random).2 =
            (.ok, some token) := by
          simp only [liveDataStart, hidle.cleared, htoken]
          rfl
        have hanswer : (liveStartHandler true true (LiveApi.after visits) nowUs random).2 =
            ⟨okStatus, render (startedJson (tokenText token)), true⟩ := by
          simp only [liveStartHandler, appControlStartLiveData, hstart, Bool.not_true,
            Bool.false_eq_true, if_false]
          rw [snprintf_of_lt (length_startText_lt token), startText_eq]
        have hreply : (perform (LiveApi.after visits) ⟨nowUs, .start random⟩).2 =
            .started .ok (some token) := by
          simp only [perform, hstart]
        have hopen : Session.OpenAt (history (visits ++
            [(nowUs, .request (.start true true random))])) nowUs ⟨token, nowUs, []⟩ := by
          rw [hhistory, hreply]
          refine ⟨.started ⟨random, rfl, rfl⟩, ?_⟩
          change nowUs < nowUs + liveDataLeaseUs
          exact Int.lt_add_of_pos_right nowUs (by decide)
        rw [hanswer]
        exact right_of_render (.started hidle.not_openAt hopen (names_tokenText hne))

/-- The body of an ended snapshot. -/
theorem right_of_snapshot {value : Option Text} {accepts : ℕ → Bool} {s : Session}
    (hvalue : Names value s.token) (hs : Session.OpenAt before nowUs s) :
    Right before after nowUs (.samples value accepts)
      ⟨okStatus, (sendSnapshot ⟨[], accepts⟩ s.samples).1.taken.flatten,
        (sendSnapshot ⟨[], accepts⟩ s.samples).2⟩ := by
  rw [sendSnapshot_putAll]
  constructor
  · intro hended
    obtain ⟨k, -, htaken, hall⟩ := (Sink.mk [] accepts).putAll_take (snapshotChunks s.samples)
    obtain rfl := hall.mp hended
    refine ⟨samplesJson s.samples, ?_, .samples hvalue hs⟩
    rw [htaken, List.take_length, List.nil_append, flatten_snapshotChunks, parse_render]
  · intro haccepted
    exact (Sink.putAll_iff _ _).mpr fun n _ => haccepted _

theorem not_names {value : Option Text} (h : requestToken value = none) :
    ¬ ∃ token, Names value token := by
  rintro ⟨token, htoken⟩
  rw [requestToken_iff.mpr htoken] at h
  cases h

theorem right_samples {visits : List (ℤ × Visit)} (value : Option Text) (accepts : ℕ → Bool)
    (h : Refines (history visits) nowUs (LiveApi.after visits)) :
    Right (history visits) after nowUs (.samples value accepts)
      (liveSamplesHandler (LiveApi.after visits) value nowUs accepts).2 := by
  rw [liveSamplesHandler]
  cases hvalue : requestToken value with
  | none => exact right_of_error (by decide) (.noToken rfl (not_names hvalue))
  | some token =>
    have hnames := requestToken_iff.mp hvalue
    rcases h.expire (Int.le_refl nowUs) with ⟨s, hs, hlive⟩ | hidle
    · by_cases htoken : token = s.token
      · subst htoken
        have hcopied : (liveDataSnapshot (LiveApi.after visits) s.token liveDataSignalCount
            nowUs).2 = (.ok, some s.samples) := by
          simp only [liveDataSnapshot, hs.cached]
          simp [Session.cache, hs.token_ne]
        simp only [hcopied]
        exact right_of_snapshot hnames (hs.openAt hlive)
      · have hcopied : (liveDataSnapshot (LiveApi.after visits) token liveDataSignalCount nowUs).2 =
            (.invalidToken, none) := by
          simp only [liveDataSnapshot, hs.cached]
          simp [Session.cache, htoken]
        simp only [hcopied]
        exact right_of_error (by decide)
          (.notOwner rfl hnames (hs.openAt hlive) (Ne.symm htoken))
    · have hcopied : (liveDataSnapshot (LiveApi.after visits) token liveDataSignalCount nowUs).2 =
          (.disabled, none) := by
        simp only [liveDataSnapshot, hidle.cleared]
        rfl
      simp only [hcopied]
      exact right_of_error (by decide) (.disabled rfl hnames hidle.not_openAt)

theorem right_stop {visits : List (ℤ × Visit)} (value : Option Text)
    (h : Refines (history visits) nowUs (LiveApi.after visits)) :
    Right (history visits) (history (visits ++ [(nowUs, .request (.stop value))])) nowUs
      (.stop value) (liveStopHandler (LiveApi.after visits) value nowUs).2 := by
  rw [liveStopHandler]
  cases hvalue : requestToken value with
  | none => exact right_of_error (by decide) (.noToken rfl (not_names hvalue))
  | some token =>
    have hnames := requestToken_iff.mp hvalue
    rcases h.expire (Int.le_refl nowUs) with ⟨s, hs, hlive⟩ | hidle
    · by_cases htoken : token = s.token
      · subst htoken
        have hstopped : (liveDataStop (LiveApi.after visits) s.token nowUs).2 = .ok := by
          simp only [liveDataStop, hs.cached]
          simp [Session.cache, hs.token_ne]
        have hclosed : ¬ ∃ r, Session.OpenAt (history (visits ++
            [(nowUs, .request (.stop value))])) nowUs r := by
          have haction : (Visit.request (.stop value)).action = some (.stop s.token) := by
            simp [Visit.action, Request.action, hvalue]
          rw [history_append visits nowUs _ haction]
          have hends : Event.Ends ⟨⟨nowUs, .stop s.token⟩,
              (perform (LiveApi.after visits) ⟨nowUs, .stop s.token⟩).2⟩ :=
            .inr (.inl (congrArg Reply.stopped hstopped))
          exact (Idle.ended hends (by simp [Event.starts])).not_openAt
        have hbody : stoppedText = render stoppedJson := rfl
        simp only [hstopped, hbody]
        exact right_of_render (.stopped hnames (hs.openAt hlive) hclosed)
      · have hstopped : (liveDataStop (LiveApi.after visits) token nowUs).2 = .invalidToken := by
          simp only [liveDataStop, hs.cached]
          simp [Session.cache, htoken]
        simp only [hstopped]
        exact right_of_error (by decide)
          (.notOwner rfl hnames (hs.openAt hlive) (Ne.symm htoken))
    · have hstopped : (liveDataStop (LiveApi.after visits) token nowUs).2 = .disabled := by
        simp only [liveDataStop, hidle.cleared]
        rfl
      simp only [hstopped]
      exact right_of_error (by decide) (.disabled rfl hnames hidle.not_openAt)

end

/-- After any visits in order, the body of the answer to a request is read back as the value that
the history allows, and the body is ended unless the connection refuses one of its chunks. -/
theorem answers_of_visits {visits : List (ℤ × Visit)} {nowUs : ℤ} (r : Request)
    (h : InOrder visits nowUs) :
    Right (history visits) (history (visits ++ [(nowUs, .request r)])) nowUs r
      (respond (after visits) nowUs r).2 := by
  have hrefines := refines_history h
  cases r with
  | start acquired running random => exact right_start acquired running random hrefines
  | samples value accepts => exact right_samples value accepts hrefines
  | stop value => exact right_stop value hrefines

/-- A viewer starts, and a sample of 3000 rpm is recorded a second later. -/
def firstVisits : List (ℤ × Visit) :=
  [(0, .request (.start true true 0xBEEF)), (1000000, .record ⟨canIdEngineRpm, 8, 3000⟩)]

theorem firstVisits_answers :
    let request := Request.samples (some " 0xBeef".toList) fun _ => true
    let answer := (respond (after firstVisits) 9999999 request).2
    answer.body = samplesOpening ++ "\x7b\"can_id\":187,\"value\":3000".toList ++
        ",\"timestamp_ms\":0,\"sequence\":1\x7d".toList ++ samplesClosing ∧
      ∃ json, parse answer.body = some json ∧
        Answers (history firstVisits) (history (firstVisits ++ [(9999999, .request request)]))
          9999999 request answer.status json := by
  intro request answer
  have hright := @answers_of_visits firstVisits 9999999 request
    (by simp [InOrder, firstVisits])
  exact ⟨by decide +kernel, hright.allowed (hright.ended fun _ => rfl)⟩

end BajaDaq.LiveApi
