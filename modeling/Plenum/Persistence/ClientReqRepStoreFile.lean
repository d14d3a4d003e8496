/-
What the nodes have answered, as the client's request store keeps it.

- `ReqRepStore`: one text for each request, to which every call appends a line: a letter, a `~`, the node, and for all but
  acknowledgements a `~` and what the node has sent. The key is the identifier and the request id written together.
- `textsOf`, `resultsOf`, `ackedBy`: what the nodes themselves have sent for a request, in this order.
- `answers_exact`: if no reason and no serialized result has a line boundary in it, the store returns for every request
  whose key is not that of another one exactly what each node has last sent.
- `forged_reject`: a reason with a line break puts an answer into another node's mouth.
-/
import Mathlib.Tactic
import Plenum.Core.Dict
import Plenum.Core.Lines
import Plenum.Common.Types

namespace Plenum

open Plenum.Core

/-! ## The store -/

/-- the kinds of answers that carry a text -/
inductive AnswerKind where
  | nack
  | reject
  | reply
deriving DecidableEq, Repr

/-- the call that stores a request or an answer; `ω` are requests, `ρ` the results of replies -/
inductive StoreCall (ω ρ : Type) where
  | addRequest (identifier : String) (reqId : ℕ) (req : ω)
  | addAck (identifier : String) (reqId : ℕ) (sender : NodeName)
  | addNack (identifier : String) (reqId : ℕ) (reason : String) (sender : NodeName)
  | addReject (identifier : String) (reqId : ℕ) (reason : String) (sender : NodeName)
  | addReply (identifier : String) (reqId : ℕ) (sender : NodeName) (result : ρ)

/-- how requests and results are turned into text, and results read back -/
structure StoreSerializers (ω ρ : Type) where
  serializeReq : ω → String
  serialize : ρ → String
  deserialize : String → ρ

/-- `reqStore`: the text of each key -/
abbrev ReqRepStore := Dict String String

namespace LinePrefixes

def Request : Char := '0'

def REQACK : Char := 'A'

def REQNACK : Char := 'N'

def REJECT : Char := 'J'

def REPLY : Char := 'R'

end LinePrefixes

def delimiter : Char := '~'

def AnswerKind.letter : AnswerKind → Char
  | .nack => LinePrefixes.REQNACK
  | .reject => LinePrefixes.REJECT
  | .reply => LinePrefixes.REPLY

def reqKey (identifier : String) (reqId : ℕ) : String := identifier ++ toString reqId

namespace ReqRepStore

/-- `appendToValue`: the text and a newline are appended -/
def appendToValue (s : ReqRepStore) (key : String) (text : List Char) : ReqRepStore :=
  s.set key (((s.get? key).getD "") ++ String.ofList (text ++ ['\n']))

def getLinesWithPrefix (s : ReqRepStore) (identifier : String) (reqId : ℕ) (start : List Char) : List (List Char) :=
  match s.get? (reqKey identifier reqId) with
  | some data => (splitlines data.toList).filter fun line => start.isPrefixOf line
  | none => []

/-- the node and the text of a line; a line with no second `~` cannot be taken apart -/
def readLine (line : List Char) : Option (NodeName × String) :=
  (partition delimiter (line.drop 2)).map fun parts => (String.ofList parts.1, String.ofList parts.2)

/-- `getNacks`, `getRejects` and `_getSerializedReplies`: they raise a `ValueError` on a line that cannot be read -/
def getTexts (s : ReqRepStore) (kind : AnswerKind) (identifier : String) (reqId : ℕ) :
    Option (Dict NodeName String) :=
  (s.getLinesWithPrefix identifier reqId [kind.letter, delimiter]).foldlM
    (fun result line => (readLine line).map fun e => result.set e.1 e.2) Dict.empty

def getNacks (s : ReqRepStore) := s.getTexts .nack

def getRejects (s : ReqRepStore) := s.getTexts .reject

def getAcks (s : ReqRepStore) (identifier : String) (reqId : ℕ) : List NodeName :=
  (s.getLinesWithPrefix identifier reqId [LinePrefixes.REQACK, delimiter]).map fun line => String.ofList (line.drop 2)

end ReqRepStore

namespace StoreCall

variable {ω ρ : Type} (z : StoreSerializers ω ρ)

def identifier : StoreCall ω ρ → String
  | addRequest identifier _ _ => identifier
  | addAck identifier _ _ => identifier
  | addNack identifier _ _ _ => identifier
  | addReject identifier _ _ _ => identifier
  | addReply identifier _ _ _ => identifier

def reqId : StoreCall ω ρ → ℕ
  | addRequest _ reqId _ => reqId
  | addAck _ reqId _ => reqId
  | addNack _ reqId _ _ => reqId
  | addReject _ reqId _ _ => reqId
  | addReply _ reqId _ _ => reqId

/-- the line that a node's answer becomes -/
def answerLine (letter : Char) (sender : NodeName) (text : String) : List Char :=
  letter :: delimiter :: (sender.toList ++ delimiter :: text.toList)

def line : StoreCall ω ρ → List Char
  | addRequest _ _ req => LinePrefixes.Request :: delimiter :: (z.serializeReq req).toList
  | addAck _ _ sender => LinePrefixes.REQACK :: delimiter :: sender.toList
  | addNack _ _ reason sender => answerLine LinePrefixes.REQNACK sender reason
  | addReject _ _ reason sender => answerLine LinePrefixes.REJECT sender reason
  | addReply _ _ sender result => answerLine LinePrefixes.REPLY sender (z.serialize result)

end StoreCall

namespace ReqRepStore

variable {ω ρ : Type} (z : StoreSerializers ω ρ)

/-- what a call does to the store -/
def call (s : ReqRepStore) (c : StoreCall ω ρ) : ReqRepStore :=
  s.appendToValue (reqKey c.identifier c.reqId) (c.line z)

def calls (cs : List (StoreCall ω ρ)) : ReqRepStore := cs.foldl (call z) Dict.empty

def getReplies (s : ReqRepStore) (identifier : String) (reqId : ℕ) : Option (Dict NodeName ρ) :=
  (s.getTexts .reply identifier reqId).map (Dict.mapValues z.deserialize)

end ReqRepStore

/-! ## What the nodes have sent -/

namespace StoreCall

variable {ω ρ : Type} (z : StoreSerializers ω ρ)

/-- the answer that a call stores: its kind, the node and the text -/
def answer : StoreCall ω ρ → Option (AnswerKind × NodeName × String)
  | addNack _ _ reason sender => some (.nack, sender, reason)
  | addReject _ _ reason sender => some (.reject, sender, reason)
  | addReply _ _ sender result => some (.reply, sender, z.serialize result)
  | _ => none

/-- the node whose acknowledgement a call stores -/
def acked : StoreCall ω ρ → Option NodeName
  | addAck _ _ sender => some sender
  | _ => none

/-- the call is for the request -/
def isFor (c : StoreCall ω ρ) (identifier : String) (reqId : ℕ) : Bool :=
  c.identifier = identifier ∧ c.reqId = reqId

/-- the node that has sent the message of the call -/
def sender? : StoreCall ω ρ → Option NodeName
  | addRequest _ _ _ => none
  | addAck _ _ sender => some sender
  | addNack _ _ _ sender => some sender
  | addReject _ _ _ sender => some sender
  | addReply _ _ sender _ => some sender

/-- a node's name has no delimiter and is one line -/
def SenderOk (c : StoreCall ω ρ) : Prop := ∀ sender, c.sender? = some sender → delimiter ∉ sender.toList ∧ OneLine sender.toList

/-- what a node has sent is one line -/
def TextOk (c : StoreCall ω ρ) : Prop := ∀ a, c.answer z = some a → OneLine a.2.2.toList

end StoreCall

section Sent

variable {ω ρ : Type} (z : StoreSerializers ω ρ)

/-- the calls for a request -/
def callsFor (cs : List (StoreCall ω ρ)) (identifier : String) (reqId : ℕ) : List (StoreCall ω ρ) :=
  cs.filter fun c => c.isFor identifier reqId

/-- the texts of a kind among the answers of a node -/
def textsOf (cs : List (StoreCall ω ρ)) (kind : AnswerKind) (node : NodeName) : List String :=
  cs.filterMap fun c => (c.answer z).bind fun a => if a.1 = kind ∧ a.2.1 = node then some a.2.2 else none

/-- the results among the replies of a node -/
def resultsOf (cs : List (StoreCall ω ρ)) (node : NodeName) : List ρ :=
  cs.filterMap fun
    | .addReply _ _ sender result => if sender = node then some result else none
    | _ => none

/-- the nodes that have acknowledged, once for each time -/
def ackedBy (cs : List (StoreCall ω ρ)) : List NodeName := cs.filterMap StoreCall.acked

/-- no call is for another request with the same key -/
def KeyOk (cs : List (StoreCall ω ρ)) (identifier : String) (reqId : ℕ) : Prop :=
  ∀ c ∈ cs, reqKey c.identifier c.reqId = reqKey identifier reqId → c.isFor identifier reqId = true

end Sent

/-! ## The text of a key -/

section Store

variable {ω ρ : Type} {z : StoreSerializers ω ρ} {c : StoreCall ω ρ} {cs : List (StoreCall ω ρ)}
  {identifier : String} {reqId : ℕ}

/-- the lines that the calls have appended to a key -/
def linesOf (z : StoreSerializers ω ρ) (cs : List (StoreCall ω ρ)) (key : String) : List (List Char) :=
  (cs.filter fun c => reqKey c.identifier c.reqId = key).map fun c => c.line z

theorem calls_concat (z : StoreSerializers ω ρ) (cs : List (StoreCall ω ρ)) (c : StoreCall ω ρ) :
    ReqRepStore.calls z (cs ++ [c]) = (ReqRepStore.calls z cs).call z c := by
  unfold ReqRepStore.calls
  rw [List.foldl_append]
  rfl

/-- the text of a key is that of its lines -/
theorem toList_getD_calls (z : StoreSerializers ω ρ) (cs : List (StoreCall ω ρ)) (key : String) :
    (((ReqRepStore.calls z cs).get? key).getD "").toList = (linesOf z cs key).flatMap fun line => line ++ ['\n'] := by
  induction cs using List.reverseRecOn with
  | nil => rfl
  | append_singleton cs c ih =>
    rw [calls_concat]
    unfold ReqRepStore.call ReqRepStore.appendToValue linesOf at *
    rw [Dict.get?_set, List.filter_append]
    by_cases hkey : key = reqKey c.identifier c.reqId
    · subst hkey
      simp [ih]
    · rw [if_neg hkey, ih]
      simp [Ne.symm hkey]

theorem oneLine_cons {a : Char} {l : List Char} (ha : a ∉ lineBoundaries) (hl : OneLine l) : OneLine (a :: l) := by
  intro d hd
  rcases List.mem_cons.1 hd with rfl | hd
  · exact ha
  · exact hl d hd

theorem oneLine_append {l l' : List Char} (hl : OneLine l) (hl' : OneLine l') : OneLine (l ++ l') := by
  intro d hd
  exact (List.mem_append.1 hd).elim (hl d) (hl' d)

theorem oneLine_answerLine {letter : Char} (hletter : letter ∉ lineBoundaries) {sender : NodeName} {text : String}
    (hsender : OneLine sender.toList) (htext : OneLine text.toList) :
    OneLine (StoreCall.answerLine letter sender text) := by
  refine oneLine_cons hletter (oneLine_cons (by decide) (oneLine_append hsender ?_))
  exact oneLine_cons (by decide) htext

/-- the line of a call is one line -/
theorem oneLine_line (hreq : ∀ req, OneLine (z.serializeReq req).toList) (hsender : c.SenderOk) (htext : c.TextOk z) :
    OneLine (c.line z) := by
  cases c with
  | addRequest identifier reqId req => exact oneLine_cons (by decide) (oneLine_cons (by decide) (hreq req))
  | addAck identifier reqId sender =>
    exact oneLine_cons (by decide) (oneLine_cons (by decide) (hsender sender rfl).2)
  | addNack identifier reqId reason sender =>
    exact oneLine_answerLine (by decide) (hsender sender rfl).2 (htext (.nack, sender, reason) rfl)
  | addReject identifier reqId reason sender =>
    exact oneLine_answerLine (by decide) (hsender sender rfl).2 (htext (.reject, sender, reason) rfl)
  | addReply identifier reqId sender result =>
    exact oneLine_answerLine (by decide) (hsender sender rfl).2 (htext (.reply, sender, z.serialize result) rfl)

/-- **The lines of a key are those that were appended.** -/
theorem getLinesWithPrefix_calls (hlines : ∀ c ∈ cs, OneLine (c.line z)) (start : List Char) :
    (ReqRepStore.calls z cs).getLinesWithPrefix identifier reqId start =
      (linesOf z cs (reqKey identifier reqId)).filter fun line => start.isPrefixOf line := by
  have htext := toList_getD_calls z cs (reqKey identifier reqId)
  have hone : ∀ line ∈ linesOf z cs (reqKey identifier reqId), OneLine line := by
    intro line hline
    obtain ⟨c, hc, rfl⟩ := List.mem_map.1 hline
    exact hlines c (List.mem_of_mem_filter hc)
  have hsplit := splitlines_lines hone
  unfold ReqRepStore.getLinesWithPrefix
  cases hget : (ReqRepStore.calls z cs).get? (reqKey identifier reqId) with
  | none =>
    rw [hget] at htext
    rw [← htext] at hsplit
    rw [← hsplit]
    rfl
  | some data =>
    rw [hget, Option.getD_some] at htext
    dsimp only
    rw [htext, hsplit]

/-- a line starts with the letter of its kind -/
theorem isPrefixOf_line (z : StoreSerializers ω ρ) (kind : AnswerKind) (c : StoreCall ω ρ) :
    [kind.letter, delimiter].isPrefixOf (c.line z) = (c.answer z).any fun a => a.1 = kind := by
  cases c <;> cases kind <;> rfl

theorem isPrefixOf_line_ack (z : StoreSerializers ω ρ) (c : StoreCall ω ρ) :
    [LinePrefixes.REQACK, delimiter].isPrefixOf (c.line z) = c.acked.isSome := by
  cases c <;> rfl

theorem readLine_answerLine (letter : Char) {sender : NodeName} (hsender : delimiter ∉ sender.toList) (text : String) :
    ReqRepStore.readLine (StoreCall.answerLine letter sender text) = some (sender, text) := by
  unfold ReqRepStore.readLine StoreCall.answerLine
  rw [List.drop_succ_cons, List.drop_succ_cons, List.drop_zero, partition_append hsender]
  simp

/-- the node and the text are read back from the line -/
theorem readLine_line (hsender : c.SenderOk) {a : AnswerKind × NodeName × String} (ha : c.answer z = some a) :
    ReqRepStore.readLine (c.line z) = some a.2 := by
  cases c with
  | addRequest => cases ha
  | addAck => cases ha
  | addNack identifier reqId reason sender =>
    cases ha
    exact readLine_answerLine _ (hsender sender rfl).1 reason
  | addReject identifier reqId reason sender =>
    cases ha
    exact readLine_answerLine _ (hsender sender rfl).1 reason
  | addReply identifier reqId sender result =>
    cases ha
    exact readLine_answerLine _ (hsender sender rfl).1 (z.serialize result)

/-- by induction on the calls: the last answer of a node overwrites its earlier ones -/
theorem foldlM_readLine (kind : AnswerKind) (hsenders : ∀ c ∈ cs, c.SenderOk) :
    ∃ result, ((cs.map fun c => c.line z).filter fun line => [kind.letter, delimiter].isPrefixOf line).foldlM
        (fun result line => (ReqRepStore.readLine line).map fun e => result.set e.1 e.2) Dict.empty = some result ∧
      ∀ node, result.get? node = (textsOf z cs kind node).getLast? := by
  induction cs using List.reverseRecOn with
  | nil => exact ⟨Dict.empty, rfl, fun node => rfl⟩
  | append_singleton cs c ih =>
    obtain ⟨result, hresult, hget⟩ := ih fun d hd => hsenders d (List.mem_append_left [c] hd)
    have hc := hsenders c (by simp)
    rw [List.map_append, List.filter_append, List.foldlM_append, hresult]
    have hstart := isPrefixOf_line z kind c
    cases ha : c.answer z with
    | none =>
      have hnot : ¬ [kind.letter, delimiter].isPrefixOf (c.line z) = true := by simp [hstart, ha]
      refine ⟨result, by simp [hnot], fun node => ?_⟩
      simp [textsOf, ha, hget]
    | some a =>
      by_cases hkind : a.1 = kind
      · have hyes : [kind.letter, delimiter].isPrefixOf (c.line z) = true := by simp [hstart, ha, hkind]
        refine ⟨result.set a.2.1 a.2.2, by simp [hyes, readLine_line hc ha], fun node => ?_⟩
        rw [Dict.get?_set, hget]
        by_cases hnode : node = a.2.1
        · subst hnode
          simp [textsOf, ha, hkind]
        · simp [textsOf, ha, hnode, Ne.symm hnode]
      · have hnot : ¬ [kind.letter, delimiter].isPrefixOf (c.line z) = true := by simp [hstart, ha, hkind]
        refine ⟨result, by simp [hnot], fun node => ?_⟩
        simp [textsOf, ha, hkind, hget]

/-- the calls with the key of a request are those for it -/
theorem filter_key (hkey : KeyOk cs identifier reqId) :
    (cs.filter fun c => reqKey c.identifier c.reqId = reqKey identifier reqId) = callsFor cs identifier reqId := by
  refine List.filter_congr fun c hc => ?_
  rw [Bool.eq_iff_iff, decide_eq_true_eq]
  refine ⟨hkey c hc, fun h => ?_⟩
  simp only [StoreCall.isFor, decide_eq_true_eq] at h
  rw [h.1, h.2]

theorem getTexts_calls (hlines : ∀ c ∈ cs, OneLine (c.line z)) (hsenders : ∀ c ∈ cs, c.SenderOk)
    (hkey : KeyOk cs identifier reqId) (kind : AnswerKind) :
    ∃ result, (ReqRepStore.calls z cs).getTexts kind identifier reqId = some result ∧
      ∀ node, result.get? node = (textsOf z (callsFor cs identifier reqId) kind node).getLast? := by
  unfold ReqRepStore.getTexts
  rw [getLinesWithPrefix_calls hlines, linesOf, filter_key hkey]
  exact foldlM_readLine kind fun c hc => hsenders c (List.mem_of_mem_filter hc)

theorem getAcks_calls (hlines : ∀ c ∈ cs, OneLine (c.line z)) (hkey : KeyOk cs identifier reqId) :
    (ReqRepStore.calls z cs).getAcks identifier reqId = ackedBy (callsFor cs identifier reqId) := by
  unfold ReqRepStore.getAcks
  rw [getLinesWithPrefix_calls hlines, linesOf, filter_key hkey]
  generalize callsFor cs identifier reqId = ds
  induction ds with
  | nil => rfl
  | cons c ds ih =>
    have hstart := isPrefixOf_line_ack z c
    cases c with
    | addAck identifier reqId sender =>
      rw [List.map_cons, List.filter_cons_of_pos (by rw [hstart]; rfl), List.map_cons, ih]
      simp [ackedBy, StoreCall.acked, StoreCall.line]
    | _ =>
      rw [List.map_cons, List.filter_cons_of_neg (by rw [hstart]; exact Bool.false_ne_true), ih]
      rfl

theorem textsOf_reply (cs : List (StoreCall ω ρ)) (node : NodeName) :
    textsOf z cs .reply node = (resultsOf cs node).map z.serialize := by
  unfold textsOf resultsOf
  rw [List.map_filterMap]
  refine List.filterMap_congr fun c _ => ?_
  cases c with
  | addReply identifier reqId sender result =>
    by_cases hnode : sender = node
    · simp [StoreCall.answer, hnode]
    · simp [StoreCall.answer, hnode]
  | _ => simp [StoreCall.answer]

theorem getReplies_calls (hz : ∀ result, z.deserialize (z.serialize result) = result)
    (hlines : ∀ c ∈ cs, OneLine (c.line z)) (hsenders : ∀ c ∈ cs, c.SenderOk) (hkey : KeyOk cs identifier reqId) :
    ∃ result, (ReqRepStore.calls z cs).getReplies z identifier reqId = some result ∧
      ∀ node, result.get? node = (resultsOf (callsFor cs identifier reqId) node).getLast? := by
  obtain ⟨texts, htexts, hget⟩ := getTexts_calls hlines hsenders hkey .reply
  refine ⟨texts.mapValues z.deserialize, by rw [ReqRepStore.getReplies, htexts]; rfl, fun node => ?_⟩
  rw [Dict.get?_mapValues, hget, textsOf_reply, List.getLast?_map, Option.map_map]
  simp [Function.comp_def, hz]

end Store

/-- what the store returns for a request is what each node itself has last sent for it -/
structure AnswersExact {ω ρ : Type} (z : StoreSerializers ω ρ) (cs : List (StoreCall ω ρ)) (identifier : String)
    (reqId : ℕ) : Prop where
  acks : ∀ node, node ∈ (ReqRepStore.calls z cs).getAcks identifier reqId ↔
    node ∈ ackedBy (callsFor cs identifier reqId)
  nacks : ∃ result, (ReqRepStore.calls z cs).getNacks identifier reqId = some result ∧
    ∀ node, result.get? node = (textsOf z (callsFor cs identifier reqId) .nack node).getLast?
  rejects : ∃ result, (ReqRepStore.calls z cs).getRejects identifier reqId = some result ∧
    ∀ node, result.get? node = (textsOf z (callsFor cs identifier reqId) .reject node).getLast?
  replies : ∃ result, (ReqRepStore.calls z cs).getReplies z identifier reqId = some result ∧
    ∀ node, result.get? node = (resultsOf (callsFor cs identifier reqId) node).getLast?

/-- **No answer is forged.** In every run in which every reason and every serialized result is one line, the store returns
after each call, for every request whose key is that of no other one, exactly what each node has last sent. A serialized
request is one line, and a result is read back as it was. -/
theorem answers_exact {ω ρ : Type} (z : StoreSerializers ω ρ) (hreq : ∀ req, OneLine (z.serializeReq req).toList)
    (hz : ∀ result, z.deserialize (z.serialize result) = result) (cs : List (StoreCall ω ρ))
    (hsenders : ∀ c ∈ cs, c.SenderOk) (htexts : ∀ c ∈ cs, c.TextOk z) :
    ∀ before, before <+: cs → ∀ identifier reqId, KeyOk before identifier reqId →
      AnswersExact z before identifier reqId := by
  intro before hbefore identifier reqId hkey
  have hsenders' : ∀ c ∈ before, c.SenderOk := fun c hc => hsenders c (hbefore.subset hc)
  have hlines : ∀ c ∈ before, OneLine (c.line z) :=
    fun c hc => oneLine_line hreq (hsenders' c hc) (htexts c (hbefore.subset hc))
  refine ⟨fun node => ?_, ?_, ?_, ?_⟩
  · rw [getAcks_calls hlines hkey]
  · exact getTexts_calls hlines hsenders' hkey .nack
  · exact getTexts_calls hlines hsenders' hkey .reject
  · exact getReplies_calls hz hlines hsenders' hkey

/-! ## Witnesses -/

namespace TwoAnswers

/-- texts are kept as they are -/
def plain : StoreSerializers Unit String := ⟨fun _ => "request", id, id⟩

/-- Alpha accepts the request of the client, and Beta refuses it -/
def answered : List (StoreCall Unit String) :=
  [.addRequest "client" 1 (), .addAck "client" 1 "Alpha", .addReject "client" 1 "no steward" "Beta",
    .addReply "client" 1 "Alpha" "done"]

/-- Beta refuses the request with a reason of two lines -/
def forging : List (StoreCall Unit String) :=
  [.addRequest "client" 1 (), .addReject "client" 1 "no steward\nJ~Alpha~no steward" "Beta"]

end TwoAnswers

open TwoAnswers in
/-- **A reason in another node's name.** Alpha has sent nothing, and the store has a refusal of Alpha. -/
theorem forged_reject : (∀ c ∈ forging, c.SenderOk) ∧ KeyOk forging "client" 1 ∧
    textsOf plain (callsFor forging "client" 1) .reject "Alpha" = [] ∧
    ((ReqRepStore.calls plain forging).getRejects "client" 1).bind (fun rejects => rejects.get? "Alpha") =
      some "no steward" ∧
    ¬ AnswersExact plain forging "client" 1 := by
  have hforged : ((ReqRepStore.calls plain forging).getRejects "client" 1).bind (fun rejects => rejects.get? "Alpha") =
      some "no steward" := by decide +kernel
  have hnothing : textsOf plain (callsFor forging "client" 1) .reject "Alpha" = [] := by decide +kernel
  refine ⟨?_, by unfold KeyOk; decide +kernel, hnothing, hforged, fun hexact => ?_⟩
  · intro c hc
    fin_cases hc
    · intro sender h
      cases h
    · intro sender h
      cases h
      decide +kernel
  · obtain ⟨rejects, hrejects, hget⟩ := hexact.rejects
    have hnone := hget "Alpha"
    rw [hnothing] at hnone
    rw [hrejects, Option.bind_some, hnone] at hforged
    cases hforged

open TwoAnswers in
theorem answers_exact_answered : (∀ req, OneLine (plain.serializeReq req).toList) ∧
    (∀ result, plain.deserialize (plain.serialize result) = result) ∧ (∀ c ∈ answered, c.SenderOk) ∧
    (∀ c ∈ answered, c.TextOk plain) ∧ KeyOk answered "client" 1 ∧ AnswersExact plain answered "client" 1 := by
  have hreq : ∀ req, OneLine (plain.serializeReq req).toList := by decide +kernel
  have hsenders : ∀ c ∈ answered, c.SenderOk := by
    intro c hc
    fin_cases hc <;> intro sender h <;> cases h <;> decide +kernel
  have htexts : ∀ c ∈ answered, c.TextOk plain := by
    intro c hc
    fin_cases hc <;> intro a h <;> cases h <;> decide +kernel
  have hkey : KeyOk answered "client" 1 := by
    unfold KeyOk
    decide +kernel
  exact ⟨hreq, fun _ => rfl, hsenders, htexts, hkey,
    answers_exact plain hreq (fun _ => rfl) answered hsenders htexts answered (List.prefix_refl _) "client" 1 hkey⟩

end Plenum
