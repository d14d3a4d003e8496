/-
Batching: messages to a remote wait in its outbox and are sent together; the receiver takes a batch apart.

- `Sender`: the outboxes of a node, and what has been transmitted. Messages are serialized when they are enqueued. A flush
  sends the only message of a box as it is and several as one batch; the boxes of removed remotes are deleted.
- `Inbox`: the receiver. A batch is unpacked into the messages in it, each of which is handled on its own.
- `OutBox`: an abstract outbox of one remote. It knows of messages and of the groups in which they are sent, of no payloads
  and of no other remote.
- `Shows.run`: in every run the sender has, for each remote, what the abstract outbox has after the sends and flushes that
  concern this remote. So no remote matters to another one.
- `receive_group`: a group is received as if its messages had been sent one by one.
- `batching_transparent`: what a remote receives and what still waits for it is what was enqueued for it, as long as it stays
  registered; what waits for a removed remote is dropped.
-/
import Mathlib.Tactic
import Plenum.Core.Dict

namespace Plenum

namespace Batched

open Plenum.Core

/-! ## Messages -/

abbrev RemoteId := ℕ

/-- a message as a dictionary: a batch of the payloads `P` of other messages, or any other node message. Batches are made
by `flushOutBoxes` only. -/
inductive WireMsg (M P : Type) where
  | batch (messages : List P) (signature : Option String)
  | msg (m : M)
deriving DecidableEq

/-- what comes from the stack and the signers -/
structure Stack (M P S : Type) where
  serializeMsg : WireMsg M P → P
  /-- `none` where it raises -/
  deserializeMsg : P → Option (WireMsg M P)
  /-- whether `handlePingPong` takes the message -/
  isPingPong : P → Bool
  sign : S → M → M

variable {M P S C : Type} (stack : Stack M P S)

def prepForSending (m : M) : Option S → M
  | none => m
  | some signer => stack.sign signer m

/-- the payload of a single message -/
def payload (m : M) : P := stack.serializeMsg (.msg m)

/-! ## The sender -/

/-- `remotes` has the names of the remotes; `transmitted` is a history -/
structure Sender (P : Type) where
  remotes : Dict RemoteId String
  outBoxes : Dict RemoteId (List P)
  transmitted : List (RemoteId × P)

namespace Sender

def init (remotes : Dict RemoteId String) : Sender P := ⟨remotes, Dict.empty, []⟩

variable (s : Sender P)

/-- what waits for a remote -/
def queued (rid : RemoteId) : List P := (s.outBoxes.get? rid).getD []

def transmittedTo (rid : RemoteId) : List P := (s.transmitted.filter fun t => t.1 = rid).map Prod.snd

def enqueue (msg : P) (s : Sender P) (rid : RemoteId) : Sender P :=
  { s with outBoxes := s.outBoxes.set rid (s.queued rid ++ [msg]) }

def enqueueIntoAllRemotes (msg : P) : Sender P := s.remotes.keys.foldl (enqueue msg) s

/-- to the remotes with the given ids, or to all if none is given -/
def send (m : M) (rids : List RemoteId) (signer : Option S) : Sender P :=
  let serializedPayload := payload stack (prepForSending stack m signer)
  if rids ≠ [] then rids.foldl (enqueue serializedPayload) s else s.enqueueIntoAllRemotes serializedPayload

/-- one box is flushed; the remotes that have been removed are collected -/
def flushBox (acc : Sender P × List RemoteId) (box : RemoteId × List P) : Sender P × List RemoteId :=
  if acc.1.remotes.contains box.1 then
    match box.2 with
    | [] => acc
    | [msg] =>
      ({ acc.1 with outBoxes := acc.1.outBoxes.set box.1 [], transmitted := acc.1.transmitted ++ [(box.1, msg)] }, acc.2)
    | msgs =>
      let batch := stack.serializeMsg (.batch msgs none)
      ({ acc.1 with outBoxes := acc.1.outBoxes.set box.1 [], transmitted := acc.1.transmitted ++ [(box.1, batch)] }, acc.2)
  else (acc.1, acc.2 ++ [box.1])

/-- the boxes one after the other, then the removed remotes -/
def flushOutBoxes : Sender P :=
  let flushed := s.outBoxes.entries.foldl (flushBox stack) (s, [])
  { flushed.1 with outBoxes := flushed.1.outBoxes.eraseAll flushed.2 }

end Sender

/-- remotes come and go at any time -/
inductive SendEvent (M S : Type) where
  | send (m : M) (rids : List RemoteId) (signer : Option S)
  | flushOutBoxes
  | remotesChange (remotes : Dict RemoteId String)

namespace Sender

def handle (s : Sender P) : SendEvent M S → Sender P
  | .send m rids signer => s.send stack m rids signer
  | .flushOutBoxes => s.flushOutBoxes stack
  | .remotesChange remotes => { s with remotes := remotes }

def run (s : Sender P) (events : List (SendEvent M S)) : Sender P := events.foldl (handle stack) s

end Sender

/-! ## The receiver -/

/-- the inbox of a node, with the senders; a message has become an object of its class -/
structure Inbox (C : Type) where
  nodeInBox : List (C × String)
deriving DecidableEq

/-- what a node knows of messages: which senders are blacklisted, and the object of a message, `none` if it has no class,
or invalid fields, or a signature that does not verify -/
structure Validation (M C : Type) where
  isNodeBlacklisted : String → Bool
  construct : M → Option C

/-- ping and pong messages are removed from a batch; `none` if nothing is left of it -/
def doProcessReceived : WireMsg M P → Option (WireMsg M P)
  | .batch messages signature =>
    match messages.filter fun m => ! stack.isPingPong m with
    | [] => none
    | relevantMsgs => some (.batch relevantMsgs signature)
  | .msg m => some (.msg m)

/-- `validateNodeMsg`, for a message that is not a batch -/
def validateNodeMsg (v : Validation M C) (frm : String) (m : M) : Option C :=
  if v.isNodeBlacklisted frm then none else v.construct m

def postToNodeInBox (frm : String) (msg : C) (r : Inbox C) : Inbox C := ⟨r.nodeInBox ++ [(msg, frm)]⟩

/-- each message of a batch is handled; one that cannot be read ends the loop -/
def unpackBatch (handle : WireMsg M P → Inbox C → Inbox C) : List P → Inbox C → Inbox C
  | [], r => r
  | p :: messages, r =>
    match stack.deserializeMsg p with
    | none => r
    | some m => unpackBatch handle messages (handle m r)

/-- `validateNodeMsg` and `unpackNodeMsg`; whatever is raised ends here. A batch in a batch is a recursive call, and there
is a limit on the depth of these. -/
def handleOneNodeMsg (v : Validation M C) (frm : String) : ℕ → WireMsg M P → Inbox C → Inbox C
  | 0, _, r => r
  | depth + 1, .batch messages _, r =>
    if v.isNodeBlacklisted frm then r else unpackBatch stack (handleOneNodeMsg v frm depth) messages r
  | _ + 1, .msg m, r =>
    match validateNodeMsg v frm m with
    | none => r
    | some c => postToNodeInBox frm c r

/-- a payload arrives -/
def receive (v : Validation M C) (frm : String) (depth : ℕ) (r : Inbox C) (p : P) : Inbox C :=
  match (stack.deserializeMsg p).bind (doProcessReceived stack) with
  | none => r
  | some m => handleOneNodeMsg stack v frm depth m r

/-! ## An abstract outbox -/

/-- the messages that wait for a remote, and the groups that have been sent to it -/
structure OutBox (M : Type) where
  waiting : List M
  groups : List (List M)

/-- what happens to an outbox; it is dropped when it is flushed after its remote has been removed -/
inductive BoxOp (M : Type) where
  | enqueue (m : M)
  | flush
  | drop

namespace OutBox

def empty : OutBox M := ⟨[], []⟩

def step (b : OutBox M) : BoxOp M → OutBox M
  | .enqueue m => { b with waiting := b.waiting ++ [m] }
  | .flush => if b.waiting = [] then b else ⟨[], b.groups ++ [b.waiting]⟩
  | .drop => { b with waiting := [] }

def run (b : OutBox M) (ops : List (BoxOp M)) : OutBox M := ops.foldl step b

end OutBox

def BoxOp.message : BoxOp M → Option M
  | .enqueue m => some m
  | _ => none

def BoxOp.Keeps : BoxOp M → Prop
  | .drop => False
  | _ => True

/-- **The law of the outbox**: unless it is dropped, nothing is lost, doubled or reordered. -/
theorem OutBox.groups_append_waiting (b : OutBox M) (ops : List (BoxOp M)) (hkeeps : ∀ op ∈ ops, op.Keeps) :
    (b.run ops).groups.flatten ++ (b.run ops).waiting = b.groups.flatten ++ b.waiting ++ ops.filterMap BoxOp.message := by
  induction ops generalizing b with
  | nil => simp [OutBox.run]
  | cons op ops ih =>
    obtain ⟨hop, hops⟩ := List.forall_mem_cons.1 hkeeps
    have hrest := ih (b.step op) hops
    have hrun : b.run (op :: ops) = (b.step op).run ops := rfl
    rw [hrun, hrest]
    cases op with
    | enqueue m => simp [OutBox.step, BoxOp.message]
    | flush =>
      unfold OutBox.step
      have hmessages : (BoxOp.flush :: ops).filterMap BoxOp.message = ops.filterMap BoxOp.message := rfl
      rw [hmessages]
      split_ifs with hwaiting
      · rfl
      · simp
    | drop => exact absurd hop not_false

theorem OutBox.groups_ne_nil (b : OutBox M) (h : ∀ g ∈ b.groups, g ≠ []) (ops : List (BoxOp M)) :
    ∀ g ∈ (b.run ops).groups, g ≠ [] := by
  induction ops generalizing b with
  | nil => exact h
  | cons op ops ih =>
    refine ih (b.step op) ?_
    cases op with
    | enqueue m => exact h
    | flush =>
      unfold OutBox.step
      split_ifs with hwaiting
      · exact h
      · intro g hg
        rcases List.mem_append.1 hg with hg | hg
        · exact h g hg
        · rwa [List.mem_singleton.1 hg]
    | drop => exact h

/-! ## What concerns one remote -/

section Concerns

variable (rid : RemoteId)

/-- how often a message is enqueued for a remote -/
def copies (remotes : Dict RemoteId String) (rids : List RemoteId) : ℕ :=
  if rids ≠ [] then rids.count rid else remotes.keys.count rid

def opsOf (remotes : Dict RemoteId String) : SendEvent M S → List (BoxOp M)
  | .send m rids signer => List.replicate (copies rid remotes rids) (.enqueue (prepForSending stack m signer))
  | .flushOutBoxes => [if remotes.contains rid then .flush else .drop]
  | .remotesChange _ => []

def remotesAfter (remotes : Dict RemoteId String) : SendEvent M S → Dict RemoteId String
  | .remotesChange remotes => remotes
  | _ => remotes

def opsFor : Dict RemoteId String → List (SendEvent M S) → List (BoxOp M)
  | _, [] => []
  | remotes, e :: events => opsOf stack rid remotes e ++ opsFor (remotesAfter remotes e) events

/-- the messages enqueued for a remote, in order -/
def enqueuedFor (remotes : Dict RemoteId String) (events : List (SendEvent M S)) : List M :=
  (opsFor stack rid remotes events).filterMap BoxOp.message

/-- the remote is registered all the time -/
def StaysRegistered (remotes : Dict RemoteId String) (events : List (SendEvent M S)) : Prop :=
  remotes.contains rid = true ∧ ∀ remotes', SendEvent.remotesChange remotes' ∈ events → remotes'.contains rid = true

/-- how a group is sent -/
def groupPayload : List M → P
  | [m] => payload stack m
  | ms => stack.serializeMsg (.batch (ms.map (payload stack)) none)

/-- the sender has what an abstract outbox of the remote has -/
structure Shows (s : Sender P) (b : OutBox M) : Prop where
  queued : s.queued rid = b.waiting.map (payload stack)
  transmittedTo : s.transmittedTo rid = b.groups.map (groupPayload stack)

end Concerns

/-! ## The sender refines the abstract outbox -/

variable {rid : RemoteId} {s : Sender P} {b : OutBox M}

theorem queued_enqueue (msg : P) (rid' : RemoteId) :
    (s.enqueue msg rid').queued rid = s.queued rid ++ if rid' = rid then [msg] else [] := by
  unfold Sender.enqueue Sender.queued
  dsimp only
  rw [Dict.get?_set]
  by_cases h : rid = rid'
  · rw [if_pos h, if_pos h.symm, h]
    rfl
  · rw [if_neg h, if_neg (Ne.symm h), List.append_nil]

theorem enqueue_foldl (msg : P) (rids : List RemoteId) (s : Sender P) :
    (rids.foldl (Sender.enqueue msg) s).queued rid = s.queued rid ++ List.replicate (rids.count rid) msg ∧
      (rids.foldl (Sender.enqueue msg) s).transmitted = s.transmitted ∧
      (rids.foldl (Sender.enqueue msg) s).remotes = s.remotes := by
  induction rids generalizing s with
  | nil => simp
  | cons rid' rids ih =>
    obtain ⟨hqueued, htransmitted, hremotes⟩ := ih (s.enqueue msg rid')
    refine ⟨?_, htransmitted, hremotes⟩
    rw [List.foldl_cons, hqueued, queued_enqueue, List.append_assoc, List.count_cons]
    by_cases h : rid' = rid
    · simp [h, List.replicate_succ]
    · simp [h]

theorem send_spec (rid : RemoteId) (m : M) (rids : List RemoteId) (signer : Option S) :
    (s.send stack m rids signer).queued rid =
        s.queued rid ++ List.replicate (copies rid s.remotes rids) (payload stack (prepForSending stack m signer)) ∧
      (s.send stack m rids signer).transmitted = s.transmitted ∧ (s.send stack m rids signer).remotes = s.remotes := by
  unfold Sender.send copies
  dsimp only
  split_ifs
  · exact enqueue_foldl _ _ _
  · exact enqueue_foldl _ _ _

theorem OutBox.run_replicate (b : OutBox M) (n : ℕ) (m : M) :
    b.run (List.replicate n (.enqueue m)) = ⟨b.waiting ++ List.replicate n m, b.groups⟩ := by
  induction n generalizing b with
  | zero => simp [OutBox.run]
  | succ n ih =>
    have hrun : b.run (List.replicate (n + 1) (.enqueue m)) =
        (b.step (.enqueue m)).run (List.replicate n (.enqueue m)) := rfl
    rw [hrun, ih]
    simp [OutBox.step, List.replicate_succ]

/-- what a flush leaves alone -/
structure SameFor (rid : RemoteId) (acc acc' : Sender P × List RemoteId) : Prop where
  queued : acc'.1.queued rid = acc.1.queued rid
  transmittedTo : acc'.1.transmittedTo rid = acc.1.transmittedTo rid
  removed : rid ∈ acc'.2 ↔ rid ∈ acc.2

theorem transmittedTo_append (s : Sender P) (boxes : Dict RemoteId (List P)) (rid' : RemoteId) (p : P) :
    ({ s with outBoxes := boxes, transmitted := s.transmitted ++ [(rid', p)] } : Sender P).transmittedTo rid =
      s.transmittedTo rid ++ if rid' = rid then [p] else [] := by
  unfold Sender.transmittedTo
  dsimp only
  rw [List.filter_append, List.map_append]
  by_cases h : rid' = rid <;> simp [h]

theorem flushBox_remotes (acc : Sender P × List RemoteId) (box : RemoteId × List P) :
    (Sender.flushBox stack acc box).1.remotes = acc.1.remotes := by
  unfold Sender.flushBox
  split_ifs
  · split <;> rfl
  · rfl

theorem flushBox_other (acc : Sender P × List RemoteId) {box : RemoteId × List P} (hbox : box.1 ≠ rid) :
    SameFor rid acc (Sender.flushBox stack acc box) := by
  have hset : ∀ p : P, SameFor rid acc
      ({ acc.1 with outBoxes := acc.1.outBoxes.set box.1 [], transmitted := acc.1.transmitted ++ [(box.1, p)] }, acc.2) := by
    intro p
    refine ⟨?_, ?_, Iff.rfl⟩
    · unfold Sender.queued
      dsimp only
      rw [Dict.get?_set_ne _ _ hbox.symm]
    · rw [transmittedTo_append, if_neg hbox, List.append_nil]
  unfold Sender.flushBox
  split_ifs
  · split
    · exact ⟨rfl, rfl, Iff.rfl⟩
    · exact hset _
    · exact hset _
  · refine ⟨rfl, rfl, ?_⟩
    simp [hbox.symm]

theorem flushBoxes_other (boxes : List (RemoteId × List P)) (hboxes : rid ∉ boxes.map Prod.fst)
    (acc : Sender P × List RemoteId) :
    SameFor rid acc (boxes.foldl (Sender.flushBox stack) acc) ∧
      (boxes.foldl (Sender.flushBox stack) acc).1.remotes = acc.1.remotes := by
  induction boxes generalizing acc with
  | nil => exact ⟨⟨rfl, rfl, Iff.rfl⟩, rfl⟩
  | cons box boxes ih =>
    rw [List.map_cons, List.mem_cons, not_or] at hboxes
    obtain ⟨hrest, hremotes⟩ := ih hboxes.2 (Sender.flushBox stack acc box)
    have hbox := flushBox_other stack acc (Ne.symm hboxes.1)
    refine ⟨⟨hrest.queued.trans hbox.queued, hrest.transmittedTo.trans hbox.transmittedTo,
      hrest.removed.trans hbox.removed⟩, ?_⟩
    rw [List.foldl_cons, hremotes, flushBox_remotes]

/-- what is sent of the payloads in a box -/
def sentAs (stack : Stack M P S) : List P → List P
  | [] => []
  | [msg] => [msg]
  | msgs => [stack.serializeMsg (.batch msgs none)]

theorem flushBox_self (acc : Sender P × List RemoteId) (hreg : acc.1.remotes.contains rid = true) :
    (Sender.flushBox stack acc (rid, acc.1.queued rid)).1.queued rid = [] ∧
      (Sender.flushBox stack acc (rid, acc.1.queued rid)).1.transmittedTo rid =
        acc.1.transmittedTo rid ++ sentAs stack (acc.1.queued rid) ∧
      (Sender.flushBox stack acc (rid, acc.1.queued rid)).2 = acc.2 := by
  have hcleared : ∀ transmitted : List (RemoteId × P), ({ acc.1 with
      outBoxes := acc.1.outBoxes.set rid [], transmitted := transmitted } : Sender P).queued rid = [] := by
    intro transmitted
    unfold Sender.queued
    dsimp only
    rw [Dict.get?_set_self]
    rfl
  unfold Sender.flushBox
  dsimp only
  rw [if_pos hreg]
  split
  · rename_i hempty
    rw [hempty]
    exact ⟨rfl, (List.append_nil _).symm, rfl⟩
  · rename_i msg hone
    rw [hone]
    refine ⟨hcleared _, ?_, rfl⟩
    rw [transmittedTo_append, if_pos rfl]
    rfl
  · rename_i msgs hempty hone
    refine ⟨hcleared _, ?_, rfl⟩
    rw [transmittedTo_append, if_pos rfl]
    unfold sentAs
    split
    · exact absurd ‹_› hempty
    · exact absurd ‹_› (hone _)
    · rfl

theorem flushBox_removed (acc : Sender P × List RemoteId) (msgs : List P) (hreg : acc.1.remotes.contains rid = false) :
    Sender.flushBox stack acc (rid, msgs) = (acc.1, acc.2 ++ [rid]) := by
  unfold Sender.flushBox
  dsimp only
  rw [if_neg (by rw [hreg]; decide)]

/-- the box of a remote is looked at once, and the other ones do not matter -/
theorem flushBoxes_spec (s : Sender P) (rid : RemoteId) :
    let flushed := s.outBoxes.entries.foldl (Sender.flushBox stack) (s, [])
    (s.remotes.contains rid = true → flushed.1.queued rid = [] ∧
      flushed.1.transmittedTo rid = s.transmittedTo rid ++ sentAs stack (s.queued rid) ∧ rid ∉ flushed.2) ∧
    (s.remotes.contains rid = false → flushed.1.transmittedTo rid = s.transmittedTo rid ∧
      (rid ∈ flushed.2 ∨ flushed.1.queued rid = [])) ∧
    flushed.1.remotes = s.remotes := by
  intro flushed
  cases hbox : s.outBoxes.get? rid with
  | none =>
    have hqueued : s.queued rid = [] := by
      unfold Sender.queued
      rw [hbox]
      rfl
    obtain ⟨hsame, hremotes⟩ := flushBoxes_other stack s.outBoxes.entries (Dict.get?_eq_none.1 hbox) (s, [])
    refine ⟨fun _ => ⟨hsame.queued.trans hqueued, ?_, fun h => ?_⟩, fun _ => ⟨hsame.transmittedTo, ?_⟩, hremotes⟩
    · rw [hqueued]
      exact hsame.transmittedTo.trans (List.append_nil _).symm
    · exact absurd (hsame.removed.1 h) List.not_mem_nil
    · exact Or.inr (hsame.queued.trans hqueued)
  | some msgs =>
    have hqueued : s.queued rid = msgs := by
      unfold Sender.queued
      rw [hbox]
      rfl
    obtain ⟨before, after, hsplit⟩ := List.append_of_mem (Dict.get?_eq_some.1 hbox)
    have hnodup := s.outBoxes.nodup
    rw [hsplit, List.map_append, List.map_cons, List.nodup_middle, List.nodup_cons, List.mem_append, not_or] at hnodup
    obtain ⟨hbefore, hremotes⟩ := flushBoxes_other stack before hnodup.1.1 (s, [])
    have hflushed : flushed = after.foldl (Sender.flushBox stack)
        (Sender.flushBox stack (before.foldl (Sender.flushBox stack) (s, [])) (rid, msgs)) := by
      change s.outBoxes.entries.foldl (Sender.flushBox stack) (s, []) = _
      rw [hsplit, List.foldl_append, List.foldl_cons]
    generalize before.foldl (Sender.flushBox stack) (s, []) = acc at hbefore hremotes hflushed
    obtain ⟨hafter, hremotes'⟩ := flushBoxes_other stack after hnodup.1.2
      (Sender.flushBox stack acc (rid, msgs))
    rw [← hflushed] at hafter hremotes'
    rw [flushBox_remotes, hremotes] at hremotes'
    have hnone : rid ∉ acc.2 := fun h => List.not_mem_nil (hbefore.removed.1 h)
    have hmsgs : acc.1.queued rid = msgs := hbefore.queued.trans hqueued
    refine ⟨fun hreg => ?_, fun hreg => ?_, hremotes'⟩
    · obtain ⟨hcleared, hsent, hremoved⟩ := flushBox_self stack acc (by rw [hremotes]; exact hreg)
      rw [hmsgs] at hcleared hsent hremoved
      refine ⟨hafter.queued.trans hcleared, ?_, fun h => hnone ?_⟩
      · rw [hafter.transmittedTo, hsent, hbefore.transmittedTo, hqueued]
      · rw [← hremoved]
        exact hafter.removed.1 h
    · have hremoved := flushBox_removed stack acc msgs (by rw [hremotes]; exact hreg)
      rw [hremoved] at hafter
      exact ⟨hafter.transmittedTo.trans hbefore.transmittedTo,
        Or.inl (hafter.removed.2 (List.mem_append_right _ (List.mem_singleton_self _)))⟩

theorem queued_eraseAll (s : Sender P) (rids : List RemoteId) :
    ({ s with outBoxes := s.outBoxes.eraseAll rids } : Sender P).queued rid = if rid ∈ rids then [] else s.queued rid := by
  unfold Sender.queued
  dsimp only
  rw [Dict.get?_eraseAll]
  split_ifs <;> rfl

theorem flush_registered (hreg : s.remotes.contains rid = true) : (s.flushOutBoxes stack).queued rid = [] ∧
    (s.flushOutBoxes stack).transmittedTo rid = s.transmittedTo rid ++ sentAs stack (s.queued rid) := by
  obtain ⟨hqueued, hsent, hremoved⟩ := (flushBoxes_spec stack s rid).1 hreg
  refine ⟨?_, hsent⟩
  unfold Sender.flushOutBoxes
  dsimp only
  rw [queued_eraseAll, if_neg hremoved, hqueued]

/-- what waits for a removed remote is dropped, and nothing is transmitted to it -/
theorem flush_removed (hreg : s.remotes.contains rid = false) :
    (s.flushOutBoxes stack).queued rid = [] ∧ (s.flushOutBoxes stack).transmittedTo rid = s.transmittedTo rid := by
  obtain ⟨hsent, hdropped⟩ := (flushBoxes_spec stack s rid).2.1 hreg
  refine ⟨?_, hsent⟩
  unfold Sender.flushOutBoxes
  dsimp only
  rw [queued_eraseAll]
  rcases hdropped with hremoved | hqueued
  · exact if_pos hremoved
  · rw [hqueued, ite_self]

theorem flush_remotes (s : Sender P) : (s.flushOutBoxes stack).remotes = s.remotes :=
  (flushBoxes_spec stack s 0).2.2

theorem sentAs_payloads (ms : List M) (hne : ms ≠ []) :
    sentAs stack (ms.map (payload stack)) = [groupPayload stack ms] := by
  match ms, hne with
  | [_], _ => rfl
  | _ :: _ :: _, _ => rfl

theorem handle_remotes (e : SendEvent M S) : (s.handle stack e).remotes = remotesAfter s.remotes e := by
  cases e with
  | send m rids signer => exact (send_spec stack 0 m rids signer).2.2
  | flushOutBoxes => exact flush_remotes stack s
  | remotesChange remotes => rfl

variable {stack}

/-- the step -/
theorem Shows.handle (h : Shows stack rid s b) (e : SendEvent M S) :
    Shows stack rid (s.handle stack e) (b.run (opsOf stack rid s.remotes e)) := by
  cases e with
  | send m rids signer =>
    obtain ⟨hqueued, htransmitted, -⟩ := send_spec stack rid m rids signer
    rw [opsOf, OutBox.run_replicate]
    constructor
    · rw [Sender.handle, hqueued, h.queued, List.map_append, List.map_replicate]
    · rw [Sender.handle, Sender.transmittedTo, htransmitted]
      exact h.transmittedTo
  | flushOutBoxes =>
    have hone : ∀ op : BoxOp M, b.run [op] = b.step op := fun _ => rfl
    rw [opsOf, hone, Sender.handle]
    cases hreg : s.remotes.contains rid with
    | false =>
      obtain ⟨hqueued, hsent⟩ := flush_removed stack hreg
      exact ⟨hqueued, hsent.trans h.transmittedTo⟩
    | true =>
      obtain ⟨hqueued, hsent⟩ := flush_registered stack hreg
      rw [if_pos rfl, OutBox.step]
      rw [h.queued] at hsent
      split_ifs with hwaiting
      · rw [hwaiting] at hsent
        refine ⟨?_, ?_⟩
        · rw [hqueued, hwaiting]
          rfl
        · rw [hsent, h.transmittedTo]
          exact List.append_nil _
      · rw [sentAs_payloads stack _ hwaiting, h.transmittedTo] at hsent
        exact ⟨hqueued, by rw [hsent, List.map_append, List.map_singleton]⟩
  | remotesChange remotes => exact ⟨h.queued, h.transmittedTo⟩

/-- **The run.** The sender refines the abstract outbox of each remote. -/
theorem Shows.run (h : Shows stack rid s b) (events : List (SendEvent M S)) :
    Shows stack rid (s.run stack events) (b.run (opsFor stack rid s.remotes events)) := by
  induction events generalizing s b with
  | nil => exact h
  | cons e events ih =>
    have hrest := ih (h.handle e)
    rw [handle_remotes] at hrest
    rw [opsFor, OutBox.run, List.foldl_append]
    exact hrest

theorem shows_init (remotes : Dict RemoteId String) : Shows stack rid (Sender.init remotes) OutBox.empty := ⟨rfl, rfl⟩

/-! ## A group is received as its messages -/

section Received

variable {v : Validation M C} {frm : String}

/-- what a node posts of messages that are handled one by one -/
def posted (v : Validation M C) (frm : String) (ms : List M) : List (C × String) :=
  (ms.filterMap (validateNodeMsg v frm)).map fun c => (c, frm)

theorem posted_append (ms ms' : List M) : posted v frm (ms ++ ms') = posted v frm ms ++ posted v frm ms' := by
  unfold posted
  rw [List.filterMap_append, List.map_append]

theorem posted_of_blacklisted (h : v.isNodeBlacklisted frm = true) (ms : List M) : posted v frm ms = [] := by
  have hnone : ms.filterMap (validateNodeMsg v frm) = [] := by
    rw [List.filterMap_eq_nil_iff]
    intro m _
    exact if_pos h
  unfold posted
  rw [hnone, List.map_nil]

theorem handleOneNodeMsg_msg (depth : ℕ) (m : M) (r : Inbox C) :
    handleOneNodeMsg stack v frm (depth + 1) (.msg m) r = ⟨r.nodeInBox ++ posted v frm [m]⟩ := by
  unfold handleOneNodeMsg posted
  cases hvalid : validateNodeMsg v frm m with
  | none => simp [hvalid]
  | some c => simp [hvalid, postToNodeInBox]

variable (hinv : ∀ m, stack.deserializeMsg (stack.serializeMsg m) = some m)
include hinv

theorem unpackBatch_payloads (depth : ℕ) (ms : List M) (r : Inbox C) :
    unpackBatch stack (handleOneNodeMsg stack v frm (depth + 1)) (ms.map (payload stack)) r =
      ⟨r.nodeInBox ++ posted v frm ms⟩ := by
  induction ms generalizing r with
  | nil => simp [unpackBatch, posted]
  | cons m ms ih =>
    have hread : stack.deserializeMsg (payload stack m) = some (.msg m) := hinv _
    rw [List.map_cons, unpackBatch, hread]
    dsimp only
    rw [handleOneNodeMsg_msg, ih, List.append_assoc, ← posted_append, List.singleton_append]

/-- **A group is received as its messages**, one by one. -/
theorem receive_group {ms : List M} (hne : ms ≠ []) (hping : ∀ m ∈ ms, stack.isPingPong (payload stack m) = false)
    (depth : ℕ) (r : Inbox C) :
    receive stack v frm (depth + 2) r (groupPayload stack ms) = ⟨r.nodeInBox ++ posted v frm ms⟩ := by
  match ms, hne with
  | [m], _ =>
    have hread : stack.deserializeMsg (payload stack m) = some (.msg m) := hinv _
    rw [groupPayload, receive, hread]
    exact handleOneNodeMsg_msg (depth + 1) m r
  | m :: m' :: ms, _ =>
    have hread : stack.deserializeMsg (groupPayload stack (m :: m' :: ms)) =
        some (.batch ((m :: m' :: ms).map (payload stack)) none) := hinv _
    have hrelevant : (((m :: m' :: ms).map (payload stack)).filter fun p => ! stack.isPingPong p) =
        (m :: m' :: ms).map (payload stack) := by
      rw [List.filter_eq_self]
      intro p hp
      obtain ⟨m₀, hm₀, rfl⟩ := List.mem_map.1 hp
      rw [hping m₀ hm₀]
      rfl
    have hprocessed : doProcessReceived stack (.batch ((m :: m' :: ms).map (payload stack)) none) =
        some (.batch ((m :: m' :: ms).map (payload stack)) none) := by
      unfold doProcessReceived
      dsimp only
      rw [hrelevant]
      rfl
    rw [receive, hread, Option.bind_some, hprocessed]
    dsimp only
    rw [handleOneNodeMsg]
    split_ifs with hblack
    · rw [posted_of_blacklisted hblack, List.append_nil]
    · exact unpackBatch_payloads hinv depth _ r

theorem receive_groups {groups : List (List M)} (hne : ∀ g ∈ groups, g ≠ [])
    (hping : ∀ m ∈ groups.flatten, stack.isPingPong (payload stack m) = false) (depth : ℕ) (r : Inbox C) :
    (groups.map (groupPayload stack)).foldl (receive stack v frm (depth + 2)) r =
      ⟨r.nodeInBox ++ posted v frm groups.flatten⟩ := by
  induction groups generalizing r with
  | nil => simp [posted]
  | cons g groups ih =>
    obtain ⟨hg, hgroups⟩ := List.forall_mem_cons.1 hne
    have hpingOf : ∀ m ∈ g, stack.isPingPong (payload stack m) = false := fun m hm =>
      hping m (by rw [List.flatten_cons]; exact List.mem_append_left _ hm)
    have hpingRest : ∀ m ∈ groups.flatten, stack.isPingPong (payload stack m) = false := fun m hm =>
      hping m (by rw [List.flatten_cons]; exact List.mem_append_right _ hm)
    rw [List.map_cons, List.foldl_cons, receive_group hinv hg hpingOf, ih hgroups hpingRest, List.append_assoc,
      ← posted_append, List.flatten_cons]

end Received

/-! ## The result -/

theorem opsFor_keeps {remotes : Dict RemoteId String} {events : List (SendEvent M S)}
    (h : StaysRegistered rid remotes events) : ∀ op ∈ opsFor stack rid remotes events, op.Keeps := by
  induction events generalizing remotes with
  | nil =>
    intro op hop
    exact absurd hop List.not_mem_nil
  | cons e events ih =>
    intro op hop
    rw [opsFor, List.mem_append] at hop
    rcases hop with hop | hop
    · cases e with
      | send m rids signer =>
        rw [List.eq_of_mem_replicate hop]
        exact trivial
      | flushOutBoxes =>
        rw [opsOf, if_pos h.1, List.mem_singleton] at hop
        rw [hop]
        exact trivial
      | remotesChange remotes => exact absurd hop List.not_mem_nil
    · have hrest : StaysRegistered rid (remotesAfter remotes e) events := by
        refine ⟨?_, fun remotes' h' => h.2 remotes' (List.mem_cons_of_mem _ h')⟩
        cases e with
        | send m rids signer => exact h.1
        | flushOutBoxes => exact h.1
        | remotesChange remotes' => exact h.2 remotes' List.mem_cons_self
      exact ih hrest op hop

variable (stack) in
/-- **Batching is transparent.** For every run of sends, flushes and changes of the remotes: of the messages enqueued for a
remote that stays registered some have been delivered and the others still wait, in the order of the sends and each one
once. What waits is in the outbox; and whoever receives what has been transmitted, and takes the batches apart, handles
what has been delivered, as if it had come message by message. A flush drops what waits for a removed remote and transmits
nothing to it; the boxes of the others are sent and are empty then. -/
theorem batching_transparent (hinv : ∀ m, stack.deserializeMsg (stack.serializeMsg m) = some m)
    (remotes : Dict RemoteId String) (events : List (SendEvent M S)) :
    let s := (Sender.init remotes).run stack events
    (∀ rid, StaysRegistered rid remotes events →
      (∀ m ∈ enqueuedFor stack rid remotes events, stack.isPingPong (payload stack m) = false) →
      ∃ delivered waiting, delivered ++ waiting = enqueuedFor stack rid remotes events ∧
        s.queued rid = waiting.map (payload stack) ∧
        ∀ (C : Type) (v : Validation M C) (frm : String) (depth : ℕ) (r : Inbox C),
          (s.transmittedTo rid).foldl (receive stack v frm (depth + 2)) r =
            ⟨r.nodeInBox ++ posted v frm delivered⟩) ∧
    (∀ rid, s.remotes.contains rid = false →
      (s.flushOutBoxes stack).queued rid = [] ∧ (s.flushOutBoxes stack).transmittedTo rid = s.transmittedTo rid) ∧
    (∀ rid, s.remotes.contains rid = true → (s.flushOutBoxes stack).queued rid = [] ∧
      (s.flushOutBoxes stack).transmittedTo rid = s.transmittedTo rid ++ sentAs stack (s.queued rid)) := by
  intro s
  refine ⟨fun rid hstays hping => ?_, fun rid hreg => flush_removed stack hreg, fun rid hreg => flush_registered stack hreg⟩
  have hshows : Shows stack rid s (OutBox.empty.run (opsFor stack rid remotes events)) := (shows_init remotes).run events
  have hlaw : (OutBox.empty.run (opsFor stack rid remotes events)).groups.flatten ++
      (OutBox.empty.run (opsFor stack rid remotes events)).waiting = enqueuedFor stack rid remotes events :=
    OutBox.groups_append_waiting OutBox.empty _ (opsFor_keeps hstays)
  refine ⟨_, _, hlaw, hshows.queued, fun C v frm depth r => ?_⟩
  rw [hshows.transmittedTo]
  refine receive_groups hinv (OutBox.groups_ne_nil OutBox.empty (fun g hg => absurd hg List.not_mem_nil) _) ?_ depth r
  intro m hm
  exact hping m (hlaw ▸ List.mem_append_left _ hm)

/-! ## Witness -/

namespace TwoRemotes

/-- a payload is the message itself -/
inductive Payload where
  | msg (m : String)
  | batch (messages : List Payload) (signature : Option String)

def plain : Stack String Payload Unit where
  serializeMsg
    | .msg m => .msg m
    | .batch messages signature => .batch messages signature
  deserializeMsg
    | .msg m => some (.msg m)
    | .batch messages signature => some (.batch messages signature)
  isPingPong _ := false
  sign _ m := m

def remotes : Dict RemoteId String := (Dict.empty.set 1 "Beta").set 2 "Gamma"

/-- a batch of two messages, then a single one while the other remote is removed, then one that waits -/
def events : List (SendEvent String Unit) :=
  [.send "a" [] none, .send "b" [1] none, .flushOutBoxes, .remotesChange (Dict.empty.set 1 "Beta"), .send "c" [1, 2] none,
    .flushOutBoxes, .send "d" [] none]

def acceptAll : Validation String String := ⟨fun _ => false, some⟩

end TwoRemotes

open TwoRemotes in
theorem batching_transparent_twoRemotes :
    (∃ delivered waiting, delivered ++ waiting = ["a", "b", "c", "d"] ∧
      ((Sender.init remotes).run plain events).queued 1 = waiting.map (payload plain) ∧
      (((Sender.init remotes).run plain events).transmittedTo 1).foldl (receive plain acceptAll "Alpha" 2) ⟨[]⟩ =
        ⟨posted acceptAll "Alpha" delivered⟩) ∧
    ((Sender.init remotes).run plain events).transmittedTo 1 = [.batch [.msg "a", .msg "b"] none, .msg "c"] ∧
    ((Sender.init remotes).run plain events).queued 1 = [.msg "d"] := by
  have hinv : ∀ m, plain.deserializeMsg (plain.serializeMsg m) = some m := by
    rintro (⟨messages, signature⟩ | m)
    · rfl
    · rfl
  have hstays : StaysRegistered 1 remotes events := by
    refine ⟨by decide, fun remotes' h => ?_⟩
    simp only [events, List.mem_cons, reduceCtorEq, List.not_mem_nil, SendEvent.remotesChange.injEq, or_false,
      false_or] at h
    rw [h]
    decide
  obtain ⟨delivered, waiting, hsplit, hwaiting, hreceived⟩ :=
    (batching_transparent plain hinv remotes events).1 1 hstays fun _ _ => rfl
  exact ⟨⟨delivered, waiting, hsplit, hwaiting, hreceived String acceptAll "Alpha" 0 ⟨[]⟩⟩, rfl, rfl⟩

end Batched

end Plenum
