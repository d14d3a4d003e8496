/-
Which dictionaries are messages.

- `MessageClass.Accepts`: the fields of a message of a class, in the order of its schema.
- `ofArgs_eq_ok`, `ofKwargs_eq_ok`: what can be constructed of positional parameters, and of a dictionary.
- `constructed_iff`: the dictionaries that messages can be made of are those of the messages of the known classes, in any
  order of their keys.
- `Vouched`, `verifySignature_eq_ok`: what needs no signature, or has one that verifies. Messages to clients and ORDERED
  are neither.
- `received_iff`: what a node takes, besides not having blacklisted the sender.
- `Stable`: a validator that accepts a value after the wire if it does before.
- `sent_received`: what is constructed and sent arrives.
- `prePrepare_answered`: a replica can construct its answers to every PRE-PREPARE that has arrived.
-/
import Mathlib.Tactic
import Plenum.Common.Messages

namespace Plenum.Messages

open Plenum.Core

variable {φ : Type} {L : Language φ}

/-! ## Lookups -/

theorem lookup_eq_some_iff {α : Type} {l : List (String × α)} (hnodup : (l.map Prod.fst).Nodup) {k : String} {a : α} :
    l.lookup k = some a ↔ (k, a) ∈ l := by
  induction l with
  | nil => simp
  | cons e l ih =>
    obtain ⟨k', a'⟩ := e
    rw [List.map_cons, List.nodup_cons] at hnodup
    obtain ⟨hnot, hnodup⟩ := hnodup
    rw [List.lookup_cons, List.mem_cons, Prod.mk.injEq]
    by_cases hk : k = k'
    · subst hk
      have habs : (k, a) ∉ l := fun hmem => hnot (List.mem_map.2 ⟨_, hmem, rfl⟩)
      rw [beq_self_eq_true]
      dsimp only
      rw [Option.some.injEq]
      exact ⟨fun h => Or.inl ⟨rfl, h.symm⟩, fun h => (h.resolve_right habs).2.symm⟩
    · rw [beq_eq_false_iff_ne.2 hk]
      dsimp only
      rw [ih hnodup]
      exact ⟨Or.inr, fun h => h.resolve_left fun h => hk h.1⟩

/-! ## Fields against a schema -/

/-- an entry with a field's name and a value that it accepts -/
def Fits (x : String × Validator φ) (e : String × Value φ) : Prop := x.1 = e.1 ∧ x.2.Accepts e.2

theorem validateEntries_eq_ok {schema : Schema φ} {entries : List (String × Value φ)} :
    validateEntries schema entries = .ok () ↔
      ∀ e ∈ entries, ∃ field, schema.lookup e.1 = some field ∧ field.Accepts e.2 := by
  induction entries with
  | nil => simp [validateEntries]
  | cons e entries ih =>
    obtain ⟨k, v⟩ := e
    rw [validateEntries, List.forall_mem_cons, ← ih]
    dsimp only
    cases schema.lookup k with
    | none => simp
    | some field =>
      simp only [Option.some.injEq, exists_eq_left', Validator.Accepts]
      cases field.validate v with
      | error e => simp
      | ok reason => cases reason <;> simp

theorem missedRequiredFields_eq_nil {schema : Schema φ} {entries : List (String × Value φ)} :
    missedRequiredFields schema entries = [] ↔
      ∀ x ∈ schema, x.2.optional = true ∨ x.1 ∈ entries.map Prod.fst := by
  unfold missedRequiredFields
  rw [List.map_eq_nil_iff, List.filter_eq_nil_iff]
  refine forall₂_congr fun x _ => ?_
  rw [decide_eq_true_eq, not_and, not_not, Bool.not_eq_true, ← Bool.not_eq_true]
  exact Decidable.imp_iff_or_not.trans (by rw [not_not, or_comm])

theorem validateFieldsWithSchema_eq_ok {schema : Schema φ} {entries : List (String × Value φ)} :
    validateFieldsWithSchema schema (.dict entries) = .ok () ↔
      (∀ x ∈ schema, x.2.optional = true ∨ x.1 ∈ entries.map Prod.fst) ∧
        ∀ e ∈ entries, ∃ field, schema.lookup e.1 = some field ∧ field.Accepts e.2 := by
  rw [validateFieldsWithSchema, ← missedRequiredFields_eq_nil, ← validateEntries_eq_ok]
  split_ifs with h <;> simp_all

/-- with all names there, it is an entry for every field -/
theorem forall₂_fits_iff {schema : Schema φ} (hnodup : (schema.map Prod.fst).Nodup) {fields : List (String × Value φ)} :
    List.Forall₂ Fits schema fields ↔ fields.map Prod.fst = schema.map Prod.fst ∧
      ∀ e ∈ fields, ∃ field, schema.lookup e.1 = some field ∧ field.Accepts e.2 := by
  simp only [lookup_eq_some_iff hnodup]
  constructor
  · intro h
    clear hnodup
    induction h with
    | nil => exact ⟨rfl, fun e he => absurd he List.not_mem_nil⟩
    | @cons x e schema fields hfits _ ih =>
      refine ⟨by rw [List.map_cons, List.map_cons, hfits.1, ih.1], fun e' he' => ?_⟩
      rcases List.mem_cons.1 he' with rfl | he'
      · exact ⟨x.2, by rw [← hfits.1]; exact List.mem_cons_self, hfits.2⟩
      · obtain ⟨field, hmem, hacc⟩ := ih.2 e' he'
        exact ⟨field, List.mem_cons_of_mem _ hmem, hacc⟩
  · rintro ⟨hnames, hacc⟩
    refine List.forall₂_iff_get.2 ⟨by simpa using (congrArg List.length hnames).symm, fun i hi hi' => ?_⟩
    have hname : (schema.get ⟨i, hi⟩).1 = (fields.get ⟨i, hi'⟩).1 := by
      have h := congrArg (fun l => l[i]?) hnames
      simp only [List.getElem?_map, List.getElem?_eq_getElem hi, List.getElem?_eq_getElem hi', Option.map_some,
        Option.some.injEq] at h
      exact h.symm
    obtain ⟨field, hmem, hfield⟩ := hacc _ (List.get_mem fields ⟨i, hi'⟩)
    -- the names of the schema are different, so this is the field at the same place
    have hsame : field = (schema.get ⟨i, hi⟩).2 := by
      have h1 := (lookup_eq_some_iff hnodup).2 hmem
      have h2 := (lookup_eq_some_iff hnodup).2 (List.get_mem schema ⟨i, hi⟩)
      rw [hname, h1] at h2
      exact Option.some.inj h2
    exact ⟨hname, hsame ▸ hfield⟩

theorem accepts_attr {schema : Schema φ} {fields : List (String × Value φ)} (hnodup : (schema.map Prod.fst).Nodup)
    (h : List.Forall₂ Fits schema fields) (name : String) (field : Validator φ) (hmem : (name, field) ∈ schema) :
    field.Accepts (attr fields name) := by
  obtain ⟨hnames, hfields⟩ := (forall₂_fits_iff hnodup).1 h
  have hname : name ∈ fields.map Prod.fst := hnames ▸ List.mem_map_of_mem hmem
  obtain ⟨e, he, rfl⟩ := List.mem_map.1 hname
  obtain ⟨field', hfield', hacc⟩ := hfields e he
  have hval : fields.lookup e.1 = some e.2 := (lookup_eq_some_iff (hnames ▸ hnodup)).2 he
  rw [(lookup_eq_some_iff hnodup).2 hmem, Option.some.injEq] at hfield'
  unfold attr
  rw [hval, hfield']
  exact hacc

/-! ## What can be constructed -/

namespace MessageClass

/-- the fields of a message of the class -/
def Accepts : MessageClass φ → List (String × Value φ) → Prop
  | .messageBase _ schema, fields => List.Forall₂ Fits schema fields
  | .taggedTuple _ names, fields => fields.map Prod.fst = names

/-- the names of the fields are different, and none is the name of the class's own entry -/
structure Proper (cls : MessageClass φ) : Prop where
  nodup : cls.names.Nodup
  op : "op" ∉ cls.names

variable {cls : MessageClass φ} {fields : List (String × Value φ)}

theorem Accepts.names_eq (h : cls.Accepts fields) : fields.map Prod.fst = cls.names := by
  cases cls with
  | messageBase typename schema =>
    have hnames : ∀ {schema : Schema φ} {fields : List (String × Value φ)}, List.Forall₂ Fits schema fields →
        fields.map Prod.fst = schema.map Prod.fst := by
      intro schema fields h
      induction h with
      | nil => rfl
      | cons hfits _ ih => rw [List.map_cons, List.map_cons, hfits.1, ih]
    exact hnames h
  | taggedTuple typename names => exact h

theorem fieldsOf_eq_ok {names : List String} {d : Dict String (Value φ)} :
    fieldsOf names d = .ok fields ↔ fields.map Prod.fst = names ∧ ∀ e ∈ fields, e ∈ d.entries := by
  unfold fieldsOf
  induction names generalizing fields with
  | nil =>
    rw [List.mapM_nil, List.map_eq_nil_iff]
    constructor
    · intro h
      cases h
      exact ⟨rfl, fun e he => absurd he List.not_mem_nil⟩
    · rintro ⟨rfl, -⟩
      rfl
  | cons name names ih =>
    rw [List.mapM_cons]
    cases hget : d.get? name with
    | none =>
      refine ⟨fun h => by simp [bind, Except.bind] at h, fun ⟨hnames, hmem⟩ => ?_⟩
      obtain ⟨e, rest, rfl, rfl, -⟩ := List.map_eq_cons_iff.1 hnames
      exact absurd (List.mem_map_of_mem (f := Prod.fst) (hmem e List.mem_cons_self)) (Dict.get?_eq_none.1 hget)
    | some val =>
      have hval := Dict.get?_eq_some.1 hget
      dsimp only [bind, Except.bind]
      constructor
      · intro h
        split at h
        · cases h
        · rename_i rest hrest
          cases h
          obtain ⟨hnames, hmem⟩ := ih.1 hrest
          exact ⟨by rw [List.map_cons, hnames], List.forall_mem_cons.2 ⟨hval, hmem⟩⟩
      · rintro ⟨hnames, hmem⟩
        obtain ⟨⟨k, v⟩, rest, rfl, rfl, hrest⟩ := List.map_eq_cons_iff.1 hnames
        obtain ⟨hkv, htail⟩ := List.forall_mem_cons.1 hmem
        have hv : val = v := d.entry_unique hval hkv
        subst hv
        rw [ih.2 ⟨hrest, htail⟩]
        rfl

/-- entries with these names, as many as the dictionary has -/
theorem perm_of_names {names : List String} (hnodup : names.Nodup) {d : Dict String (Value φ)}
    (hsize : d.size = names.length) (hnames : fields.map Prod.fst = names) (hmem : ∀ e ∈ fields, e ∈ d.entries) :
    d.entries.Perm fields := by
  have hfields : fields.Nodup := List.Nodup.of_map Prod.fst (hnames ▸ hnodup)
  refine ((List.subperm_of_subset hfields hmem).perm_of_length_le ?_).symm
  have hlen := congrArg List.length hnames
  rw [List.length_map] at hlen
  change d.size ≤ fields.length
  omega

theorem ofArgs_eq_ok (h : cls.Proper) {args : List (Value φ)} :
    cls.ofArgs args = .ok fields ↔ cls.Accepts fields ∧ fields.map Prod.snd = args := by
  cases cls with
  | messageBase typename schema =>
    have hnodup : (schema.map Prod.fst).Nodup := h.nodup
    rw [ofArgs]
    by_cases hlen : args.length = schema.length
    · have hnames : ((schema.map Prod.fst).zip args).map Prod.fst = schema.map Prod.fst :=
        List.map_fst_zip (by rw [List.length_map, hlen])
      have hvals : ((schema.map Prod.fst).zip args).map Prod.snd = args :=
        List.map_snd_zip (by rw [List.length_map, hlen])
      rw [if_neg (not_not.2 hlen)]
      have hiff : validateFieldsWithSchema schema (.dict ((schema.map Prod.fst).zip args)) = .ok () ↔
          List.Forall₂ Fits schema ((schema.map Prod.fst).zip args) := by
        rw [validateFieldsWithSchema_eq_ok, forall₂_fits_iff hnodup, hnames]
        exact and_congr_left fun _ => ⟨fun _ => rfl, fun _ x hx => Or.inr (List.mem_map_of_mem hx)⟩
      constructor
      · intro hok
        cases hv : validateFieldsWithSchema schema (.dict ((schema.map Prod.fst).zip args)) with
        | error e => rw [hv] at hok; cases hok
        | ok u =>
          rw [hv] at hok
          cases hok
          exact ⟨hiff.1 hv, hvals⟩
      · rintro ⟨hacc, hargs⟩
        have heq : fields = (schema.map Prod.fst).zip args := List.zip_of_prod hacc.names_eq hargs
        subst heq
        rw [hiff.2 hacc]
    · rw [if_pos hlen]
      refine ⟨fun h => (by cases h), fun ⟨hacc, hargs⟩ => absurd ?_ hlen⟩
      rw [← hargs, List.length_map]
      exact hacc.length_eq.symm
  | taggedTuple typename names =>
    rw [ofArgs]
    by_cases hlen : args.length = names.length
    · rw [if_neg (not_not.2 hlen), Except.ok.injEq]
      constructor
      · rintro rfl
        exact ⟨List.map_fst_zip hlen.ge, List.map_snd_zip hlen.le⟩
      · rintro ⟨hacc, hargs⟩
        exact (List.zip_of_prod hacc hargs).symm
    · rw [if_pos hlen]
      refine ⟨fun h => (by cases h), fun ⟨hacc, hargs⟩ => absurd ?_ hlen⟩
      have hacc' : fields.map Prod.fst = names := hacc
      rw [← hargs, ← hacc', List.length_map, List.length_map]

theorem erase_of_not_mem {d : Dict String (Value φ)} {k : String} (h : k ∉ d.keys) : d.erase k = d := by
  unfold Dict.erase
  cases d with
  | mk entries nodup =>
    congr 1
    refine List.filter_eq_self.2 fun e he => decide_eq_true fun hk => h ?_
    exact List.mem_map.2 ⟨e, he, hk⟩

theorem ofKwargs_eq_ok (h : cls.Proper) {kwargs : Dict String (Value φ)} (hop : "op" ∉ kwargs.keys) :
    cls.ofKwargs kwargs = .ok fields ↔ cls.Accepts fields ∧ kwargs.entries.Perm fields := by
  cases cls with
  | messageBase typename schema =>
    have hnodup : (schema.map Prod.fst).Nodup := h.nodup
    have hlength : (schema.map Prod.fst).length = schema.length := List.length_map _
    rw [ofKwargs, erase_of_not_mem hop]
    constructor
    · intro hok
      by_cases hsize : kwargs.size = schema.length
      · rw [if_neg (not_not.2 hsize)] at hok
        cases hv : validateFieldsWithSchema schema (.dict kwargs.entries) with
        | error e => rw [hv] at hok; cases hok
        | ok u =>
          rw [hv] at hok
          obtain ⟨hnames, hmem⟩ := fieldsOf_eq_ok.1 hok
          obtain ⟨-, hacc⟩ := validateFieldsWithSchema_eq_ok.1 hv
          exact ⟨(forall₂_fits_iff hnodup).2 ⟨hnames, fun e he => hacc e (hmem e he)⟩,
            perm_of_names hnodup (hsize.trans hlength.symm) hnames hmem⟩
      · rw [if_pos hsize] at hok
        cases hok
    · rintro ⟨hacc, hperm⟩
      have hfits : List.Forall₂ Fits schema fields := hacc
      obtain ⟨hnames, hfields⟩ := (forall₂_fits_iff hnodup).1 hfits
      have hsize : kwargs.size = schema.length := hperm.length_eq.trans hfits.length_eq.symm
      have hv : validateFieldsWithSchema schema (.dict kwargs.entries) = .ok () := by
        refine validateFieldsWithSchema_eq_ok.2 ⟨fun x hx => Or.inr ?_, fun e he => hfields e (hperm.mem_iff.1 he)⟩
        rw [(hperm.map Prod.fst).mem_iff, hnames]
        exact List.mem_map_of_mem hx
      rw [if_neg (not_not.2 hsize), hv]
      exact fieldsOf_eq_ok.2 ⟨hnames, fun e he => hperm.mem_iff.2 he⟩
  | taggedTuple typename names =>
    rw [ofKwargs]
    have hnodup : names.Nodup := h.nodup
    have hall : (kwargs.keys.all (· ∈ names) = true ∧ names.all (· ∈ kwargs.keys) = true) ↔ kwargs.keys.Perm names := by
      simp only [List.all_eq_true, decide_eq_true_eq]
      have hkeys : kwargs.keys.Nodup := kwargs.nodup
      rw [List.perm_ext_iff_of_nodup hkeys hnodup]
      exact ⟨fun h k => ⟨h.1 k, h.2 k⟩, fun h => ⟨fun k => (h k).1, fun k => (h k).2⟩⟩
    simp only [hall]
    constructor
    · intro hok
      split_ifs at hok with hkeys
      obtain ⟨hnames, hmem⟩ := fieldsOf_eq_ok.1 hok
      have hsize : kwargs.size = names.length := (List.length_map _).symm.trans hkeys.length_eq
      exact ⟨hnames, perm_of_names hnodup hsize hnames hmem⟩
    · rintro ⟨hacc, hperm⟩
      have hnames : fields.map Prod.fst = names := hacc
      rw [if_pos (hnames ▸ hperm.map Prod.fst)]
      exact fieldsOf_eq_ok.2 ⟨hnames, fun e he => hperm.mem_iff.2 he⟩

end MessageClass

/-! ## The known classes -/

theorem proper_registry : ∀ cls ∈ registry L, cls.Proper := by
  have hproper : ∀ cls ∈ registry L, cls.names.Nodup ∧ "op" ∉ cls.names := by
    simp [registry, MessageClass.names, Nomination, Batch, Reelection, Primary, RequestAck, RequestNack, Reject,
      PoolLedgerTxns, Ordered, Propagate, PrePrepare, Prepare, Commit, Checkpoint, ThreePCState, Reply, InstanceChange,
      LedgerStatus, ConsistencyProof, CatchupReq, CatchupRep, ConsProofRequest]
  exact fun cls hcls => ⟨(hproper cls hcls).1, (hproper cls hcls).2⟩

theorem typenames_registry : (registry L).map MessageClass.typename =
    ["NOMINATE", "BATCH", "REELECTION", "PRIMARY", "REQACK", "REQNACK", "REJECT", "POOL_LEDGER_TXNS", "ORDERED",
      "PROPAGATE", "PREPREPARE", "PREPARE", "COMMIT", "CHECKPOINT", "THREE_PC_STATE", "REPLY", "INSTANCE_CHANGE",
      "LEDGER_STATUS", "CONSISTENCY_PROOF", "CATCHUP_REQ", "CATCHUP_REP", "CONS_PROOF_REQUEST"] := rfl

/-- a class is found by its name, which is no other's -/
theorem classOf_eq_some {name : String} {cls : MessageClass φ} :
    classOf L name = some cls ↔ cls ∈ registry L ∧ cls.typename = name := by
  unfold classOf
  constructor
  · intro h
    have hname := List.find?_some h
    exact ⟨List.mem_of_find?_eq_some h, of_decide_eq_true hname⟩
  · rintro ⟨hmem, hname⟩
    have hnodup : ((registry L).map MessageClass.typename).Nodup := by
      rw [typenames_registry]
      decide
    cases hfind : (registry L).find? fun cls => cls.typename = name with
    | none => exact absurd (decide_eq_true hname) (List.find?_eq_none.1 hfind cls hmem)
    | some cls' =>
      have hfound := List.find?_some hfind
      have hname' : cls'.typename = name := of_decide_eq_true hfound
      exact congrArg some (List.inj_on_of_nodup_map hnodup (List.mem_of_find?_eq_some hfind) hmem
        (hname'.trans hname.symm))

theorem typename_ne_empty {cls : MessageClass φ} (h : cls ∈ registry L) : cls.typename ≠ "" := by
  have hall : ∀ name ∈ (registry L).map MessageClass.typename, name ≠ "" := by
    rw [typenames_registry]
    decide
  exact hall _ (List.mem_map_of_mem h)

/-! ## What is received -/

/-- an entry and the others -/
theorem perm_cons_erase {d : Dict String (Value φ)} {k : String} {v : Value φ} (h : d.get? k = some v) :
    d.entries.Perm ((k, v) :: (d.erase k).entries) := by
  have hmem := Dict.get?_eq_some.1 h
  have hentries : d.entries.Nodup := List.Nodup.of_map Prod.fst d.nodup
  have herase : (d.erase k).entries.Nodup := List.Nodup.of_map Prod.fst (d.erase k).nodup
  refine (List.perm_ext_iff_of_nodup hentries (List.nodup_cons.2 ⟨fun hk => ?_, herase⟩)).2 fun e => ?_
  · exact (Dict.mem_erase.1 hk).2 rfl
  · rw [List.mem_cons, Dict.mem_erase]
    constructor
    · intro he
      by_cases hk : e.1 = k
      · exact Or.inl (Prod.ext hk (d.entry_unique (k := k) (by rw [← hk]; exact he) hmem))
      · exact Or.inr ⟨he, hk⟩
    · rintro (rfl | ⟨he, -⟩)
      · exact hmem
      · exact he

theorem constructMsg_eq_ok_iff {msg : Dict String (Value φ)} {cls : MessageClass φ}
    {fields : List (String × Value φ)} :
    constructMsg L msg = .ok (cls, fields) ↔ ∃ name, msg.get? "op" = some (.str name) ∧ name ≠ "" ∧
      classOf L name = some cls ∧ cls.ofKwargs (msg.erase "op") = .ok fields := by
  constructor
  · intro h
    unfold constructMsg at h
    dsimp only at h
    split_ifs at h with htruthy hhash
    split at h
    · rename_i name hop
      split at h
      · cases h
      · rename_i cls' hcls
        split at h
        · cases h
        · rename_i fields' hargs
          cases h
          have hget : msg.get? "op" = some (.str name) := by
            cases hg : msg.get? "op" with
            | none => rw [hg] at hop; cases hop
            | some op => rw [hg] at hop; exact congrArg some hop
          refine ⟨name, hget, fun hname => ?_, hcls, hargs⟩
          rw [hop, hname] at htruthy
          exact absurd htruthy Bool.false_ne_true
    · cases h
  · rintro ⟨name, hop, hname, hcls, hargs⟩
    unfold constructMsg
    rw [hop]
    simp [Value.truthy, Value.isHashable, hname, hcls, hargs]

/-- **What can be made a message of.** The dictionaries that are messages of a class are those of the messages of the
class, with their entries in any order. -/
theorem constructed_iff {msg : Dict String (Value φ)} {cls : MessageClass φ} {fields : List (String × Value φ)} :
    constructMsg L msg = .ok (cls, fields) ↔
      cls ∈ registry L ∧ cls.Accepts fields ∧ msg.entries.Perm (cls.asDict fields) := by
  have hnot : "op" ∉ (msg.erase "op").keys := fun h => by
    obtain ⟨e, he, hk⟩ := List.mem_map.1 h
    exact (Dict.mem_erase.1 he).2 hk
  rw [constructMsg_eq_ok_iff]
  constructor
  · rintro ⟨name, hop, -, hcls, hargs⟩
    obtain ⟨hmem, hname⟩ := classOf_eq_some.1 hcls
    obtain ⟨hacc, hperm⟩ := (MessageClass.ofKwargs_eq_ok (proper_registry cls hmem) hnot).1 hargs
    refine ⟨hmem, hacc, ?_⟩
    rw [MessageClass.asDict, hname]
    exact (perm_cons_erase hop).trans (hperm.cons _)
  · rintro ⟨hmem, hacc, hperm⟩
    have hop : msg.get? "op" = some (.str cls.typename) :=
      Dict.get?_eq_some.2 (hperm.mem_iff.2 List.mem_cons_self)
    refine ⟨_, hop, typename_ne_empty hmem, classOf_eq_some.2 ⟨hmem, rfl⟩, ?_⟩
    refine (MessageClass.ofKwargs_eq_ok (proper_registry cls hmem) hnot).2 ⟨hacc, ?_⟩
    exact ((perm_cons_erase hop).symm.trans hperm).cons_inv

/-! ## Signatures -/

/-- the message is of a class that needs no signature, or it is a PROPAGATE whose request the node authenticates -/
def Vouched (L : Language φ) (node : NodeAuthn φ) (cls : MessageClass φ) (fields : List (String × Value φ)) : Prop :=
  cls ∈ authnWhitelist L ∨
    cls = Propagate L ∧ ∃ req identifier, attr fields "request" = .dict req ∧ node.authenticate req = .ok identifier

theorem authnWhitelist_subset : ∀ cls ∈ authnWhitelist L, cls ∈ registry L := by
  simp [authnWhitelist, registry]

theorem propagate_mem_registry : Propagate L ∈ registry L := by simp [registry]

/-- classes are told apart by their names -/
theorem eq_of_typename_eq {cls cls' : MessageClass φ} (h : cls ∈ registry L) (h' : cls' ∈ registry L)
    (hname : cls.typename = cls'.typename) : cls = cls' :=
  Option.some.inj ((classOf_eq_some.2 ⟨h, hname⟩).symm.trans (classOf_eq_some.2 ⟨h', rfl⟩))

theorem typename_mem_authnWhitelist {cls : MessageClass φ} (h : cls ∈ registry L) :
    cls.typename ∈ (authnWhitelist L).map MessageClass.typename ↔ cls ∈ authnWhitelist L := by
  constructor
  · intro hname
    obtain ⟨cls', hmem, heq⟩ := List.mem_map.1 hname
    rw [eq_of_typename_eq h (authnWhitelist_subset cls' hmem) heq.symm]
    exact hmem
  · exact List.mem_map_of_mem

theorem fields_of_accepts {schema : Schema φ} {check : List (String × Value φ) → Except (ValidationError φ) Unit}
    {entries : List (String × Value φ)} (h : (messageValidator schema check).Accepts (.dict entries)) :
    validateFieldsWithSchema schema (.dict entries) = .ok () := by
  unfold Validator.Accepts messageValidator at h
  dsimp only at h
  cases hfields : validateFieldsWithSchema schema (.dict entries) with
  | error e =>
    rw [hfields] at h
    cases h
  | ok _ => rfl

/-- the request of a PROPAGATE is a dictionary with a `reqId` -/
theorem request_of_accepts {fields : List (String × Value φ)} (h : (Propagate L).Accepts fields) :
    ∃ req, attr fields "request" = .dict req ∧ (req.lookup "reqId").isSome := by
  have hnodup : ((Propagate L).names).Nodup := (proper_registry _ propagate_mem_registry).nodup
  have hacc := accepts_attr hnodup h "request" (ClientMessageValidator L) List.mem_cons_self
  generalize attr fields "request" = val at hacc
  cases val with
  | dict req =>
    refine ⟨req, rfl, ?_⟩
    have hreqId := (validateFieldsWithSchema_eq_ok.1 (fields_of_accepts hacc)).1 ("reqId", NonNegativeNumberField)
      (List.mem_cons_of_mem _ List.mem_cons_self)
    obtain ⟨e, he, hkey⟩ := List.mem_map.1 (hreqId.resolve_left Bool.false_ne_true)
    exact List.lookup_isSome_iff.2 ⟨e, he, beq_iff_eq.2 hkey.symm⟩
  | _ => cases hacc

theorem verifySignature_eq_ok {node : NodeAuthn φ} {cls : MessageClass φ} {fields : List (String × Value φ)}
    (hcls : cls ∈ registry L) (h : cls.Accepts fields) :
    verifySignature L node cls fields = .ok () ↔ Vouched L node cls fields := by
  unfold verifySignature Vouched
  by_cases hwhite : cls ∈ authnWhitelist L
  · rw [if_pos ((typename_mem_authnWhitelist hcls).2 hwhite)]
    exact iff_of_true rfl (Or.inl hwhite)
  · rw [if_neg fun hname => hwhite ((typename_mem_authnWhitelist hcls).1 hname), or_iff_right hwhite]
    by_cases hprop : cls = Propagate L
    · subst hprop
      obtain ⟨req, hreq, hreqId⟩ := request_of_accepts h
      rw [if_pos rfl, hreq]
      dsimp only
      cases hauth : node.authenticate req with
      | error e =>
        refine iff_of_false (by simp) ?_
        rintro ⟨-, req', identifier, heq, hok⟩
        cases heq
        cases hauth.symm.trans hok
      | ok identifier =>
        dsimp only
        rw [if_pos hreqId]
        exact iff_of_true rfl ⟨rfl, req, identifier, rfl, hauth⟩
    · rw [if_neg fun hname => hprop (eq_of_typename_eq hcls propagate_mem_registry hname)]
      refine iff_of_false ?_ fun hvouched => hprop hvouched.1
      cases cls <;> simp

/-! ## What is received -/

/-- **What a node takes for a message.** The sender is not blacklisted, the dictionary is that of a message of a class,
with its entries in any order, and the class needs no signature or the request of a PROPAGATE is authenticated. -/
theorem received_iff {node : NodeAuthn φ} {msg : Dict String (Value φ)} {frm : String} {cls : MessageClass φ}
    {fields : List (String × Value φ)} :
    validateNodeMsg L node msg frm = .ok (some ((cls, fields), frm)) ↔
      node.isNodeBlacklisted frm = false ∧
        (cls ∈ registry L ∧ cls.Accepts fields ∧ msg.entries.Perm (cls.asDict fields)) ∧
        Vouched L node cls fields := by
  rw [← constructed_iff]
  unfold validateNodeMsg
  by_cases hblack : node.isNodeBlacklisted frm = true
  · rw [if_pos hblack, hblack]
    simp
  · rw [if_neg hblack, Bool.not_eq_true] at *
    rw [and_iff_right hblack]
    cases hmsg : constructMsg L msg with
    | error e => simp
    | ok c =>
      obtain ⟨cls', fields'⟩ := c
      obtain ⟨hcls, hacc, -⟩ := constructed_iff.1 hmsg
      have hverify : verifySignature L node cls' fields' = .ok () ↔ Vouched L node cls' fields' :=
        verifySignature_eq_ok hcls hacc
      dsimp only
      constructor
      · intro h
        cases hv : verifySignature L node cls' fields' with
        | error e => rw [hv] at h; cases e <;> cases h
        | ok _ =>
          rw [hv] at h
          cases h
          exact ⟨rfl, hverify.1 hv⟩
      · rintro ⟨heq, hvouched⟩
        cases heq
        rw [hverify.2 hvouched]

/-! ## Over the wire -/

/-- what the validator accepts, it accepts after the wire -/
def Validator.Stable (field : Validator φ) : Prop := ∀ val, field.Accepts val → field.Accepts val.wire

def Validator.OnlyDicts (field : Validator φ) : Prop := ∀ val, field.Accepts val → ∃ entries, val = .dict entries

theorem isInstance_type {baseTypes : List String} {val : Value φ} (h : baseTypes.any val.isInstance = true) :
    val.typeName ∈ baseTypes ∨ val.typeName = "bool" := by
  obtain ⟨t, ht, hval⟩ := List.any_eq_true.1 h
  rcases of_decide_eq_true hval with rfl | ⟨hbool, -⟩
  · exact Or.inl ht
  · exact Or.inr hbool

theorem fieldBase_accepts {baseTypes : List String} {optional nullable : Bool}
    {check : Value φ → Except (ValidationError φ) (Option String)} {val : Value φ}
    (h : (fieldBase (some baseTypes) optional nullable check).Accepts val) :
    val = .none ∨ baseTypes.any val.isInstance = true ∧ check val = .ok none := by
  unfold Validator.Accepts fieldBase at h
  dsimp only at h
  split at h
  · exact Or.inl rfl
  · rw [typeCheck] at h
    by_cases hty : baseTypes.any val.isInstance = true
    · rw [if_pos hty] at h
      exact Or.inr ⟨hty, h⟩
    · rw [if_neg hty] at h
      cases h

/-- a field of none of the types that the wire changes -/
theorem stable_fieldBase {baseTypes : List String} {optional nullable : Bool}
    {check : Value φ → Except (ValidationError φ) (Option String)}
    (htypes : baseTypes.all (· ∉ ["list", "tuple", "dict"]) = true) :
    (fieldBase (some baseTypes) optional nullable check).Stable := by
  intro val h
  have hwire : val.wire = val := by
    rcases fieldBase_accepts h with rfl | ⟨hty, -⟩
    · rfl
    · have hname : val.typeName ∉ ["list", "tuple", "dict"] := by
        rcases isInstance_type hty with hmem | hbool
        · exact of_decide_eq_true (List.all_eq_true.1 htypes _ hmem)
        · rw [hbool]
          decide
      cases val <;> first | rfl | simp [Value.typeName] at hname
  rw [hwire]
  exact h

theorem seqField_accepts {optional : Bool} {check : List (Value φ) → Except (ValidationError φ) (Option String)}
    {val : Value φ} : (seqField optional check).Accepts val ↔
      ∃ items, (val = .list items ∨ val = .tuple items) ∧ check items = .ok none := by
  constructor
  · intro h
    cases val with
    | list items => exact ⟨items, Or.inl rfl, h⟩
    | tuple items => exact ⟨items, Or.inr rfl, h⟩
    | _ => simp [Validator.Accepts, seqField, fieldBase, typeCheck, Value.isInstance, Value.typeName] at h
  · rintro ⟨items, rfl | rfl, h⟩ <;> exact h

theorem firstError_eq_ok {field : Validator φ} {items : List (Value φ)} :
    firstError field.validate items = .ok none ↔ ∀ val ∈ items, field.Accepts val := by
  induction items with
  | nil => simp [firstError]
  | cons val items ih =>
    rw [firstError, List.forall_mem_cons, ← ih, Validator.Accepts]
    cases field.validate val with
    | error e => simp
    | ok reason => cases reason <;> simp

theorem stable_strField (optional nullable : Bool) (check : String → Option String) :
    (strField (φ := φ) optional nullable check).Stable := by
  unfold strField
  exact stable_fieldBase (by decide)

theorem stable_intField (optional : Bool) (check : Value φ → ℤ → Option String) :
    (intField optional check).Stable := by
  unfold intField
  exact stable_fieldBase (by decide)

/-- every field of a message takes its values after the wire; the request of a PROPAGATE is a dictionary -/
def MessageClass.Sendable : MessageClass φ → Prop
  | .messageBase _ schema => ∀ x ∈ schema, x.2.Stable ∨ x.2.OnlyDicts
  | .taggedTuple _ _ => True

theorem forall₂_fits_wire {schema : Schema φ} {fields : List (String × Value φ)} (h : List.Forall₂ Fits schema fields)
    (hwire : ∀ x ∈ schema, ∀ e ∈ fields, x.2.Accepts e.2 → x.2.Accepts e.2.wire) :
    List.Forall₂ Fits schema (fields.map Value.wireEntry) := by
  induction h with
  | nil => exact List.Forall₂.nil
  | cons hx _ ih =>
    refine List.Forall₂.cons ⟨hx.1, ?_⟩ (ih fun x hx e he => ?_)
    · exact hwire _ List.mem_cons_self _ List.mem_cons_self hx.2
    · exact hwire x (List.mem_cons_of_mem _ hx) e (List.mem_cons_of_mem _ he)

/-- the fields of a message make one after the wire, where the wire leaves its dictionaries as they are -/
theorem MessageClass.Accepts.wire {cls : MessageClass φ} (hcls : cls.Sendable) {fields : List (String × Value φ)}
    (h : cls.Accepts fields) (hdict : ∀ e ∈ fields, ∀ entries, e.2 = .dict entries → e.2.wire = e.2) :
    cls.Accepts (fields.map Value.wireEntry) := by
  cases cls with
  | messageBase typename schema =>
    refine forall₂_fits_wire h fun x hx e he hacc => ?_
    rcases hcls x hx with hstable | honly
    · exact hstable _ hacc
    · obtain ⟨entries, hentries⟩ := honly _ hacc
      rw [hdict e he entries hentries]
      exact hacc
  | taggedTuple typename names =>
    have hnames : fields.map Prod.fst = names := h
    change (fields.map Value.wireEntry).map Prod.fst = names
    rw [List.map_map]
    exact hnames

theorem attr_map_wireEntry (fields : List (String × Value φ)) (name : String) :
    attr (fields.map Value.wireEntry) name = (attr fields name).wire := by
  unfold attr
  induction fields with
  | nil => rfl
  | cons e fields ih =>
    rw [List.map_cons]
    unfold Value.wireEntry at ih ⊢
    rw [List.lookup_cons, List.lookup_cons]
    cases name == e.1 with
    | true => rfl
    | false => exact ih

/-- the wire leaves a request as it is, where it leaves dictionaries as they are -/
theorem Vouched.wire {node : NodeAuthn φ} {cls : MessageClass φ} {fields : List (String × Value φ)}
    (h : Vouched L node cls fields) (hdict : ∀ e ∈ fields, ∀ entries, e.2 = .dict entries → e.2.wire = e.2) :
    Vouched L node cls (fields.map Value.wireEntry) := by
  refine h.imp_right fun hprop => ?_
  obtain ⟨hcls, req, identifier, hreq, hauth⟩ := hprop
  refine ⟨hcls, req, identifier, ?_, hauth⟩
  rw [attr_map_wireEntry, hreq]
  unfold attr at hreq
  cases hlookup : fields.lookup "request" with
  | none =>
    rw [hlookup] at hreq
    cases hreq
  | some val =>
    rw [hlookup] at hreq
    have hval : val = .dict req := hreq
    obtain ⟨before, after, hfields, -⟩ := List.lookup_eq_some_iff.1 hlookup
    rw [← hval]
    exact hdict ("request", val) (hfields ▸ List.mem_append_right before List.mem_cons_self) req hval

/-- `val[:n]` -/
def Value.first (n : ℕ) : Value φ → Value φ
  | .list items => .list (items.take n)
  | .tuple items => .tuple (items.take n)
  | val => val

/-- the parameters of the PREPARE that `doPrepare` makes -/
def prepareArgs (instId : ℕ) (pp : List (String × Value φ)) : List (Value φ) :=
  [.int instId, attr pp "viewNo", attr pp "ppSeqNo", attr pp "digest", attr pp "stateRootHash", attr pp "txnRootHash"]

/-- the parameters of the COMMIT that `doCommit` makes -/
def commitArgs (instId : ℕ) (p : List (String × Value φ)) : List (Value φ) :=
  [.int instId, attr p "viewNo", attr p "ppSeqNo"]

/-- the parameters of the ORDERED that `doOrder` makes -/
def orderedArgs (instId : ℕ) (pp : List (String × Value φ)) : List (Value φ) :=
  [.int instId, attr pp "viewNo", (attr pp "reqIdr").first ((attr pp "discarded").toInt.getD 0).toNat,
    attr pp "ppSeqNo", attr pp "ppTime", attr pp "ledgerId", attr pp "stateRootHash", attr pp "txnRootHash"]

/-- parameters that the fields accept make a message -/
theorem constructed_of_accepts {typename : String} {schema : Schema φ}
    (hproper : (MessageClass.messageBase typename schema).Proper) (args : List (Value φ))
    (h : List.Forall₂ (fun x val => x.2.Accepts val) schema args) :
    ∃ fields, (MessageClass.messageBase typename schema).ofArgs args = .ok fields := by
  refine ⟨(schema.map Prod.fst).zip args, (MessageClass.ofArgs_eq_ok hproper).2 ⟨?_, ?_⟩⟩
  · change List.Forall₂ Fits schema _
    clear hproper
    induction h with
    | nil => exact List.Forall₂.nil
    | cons hacc _ ih => exact List.Forall₂.cons ⟨rfl, hacc⟩ ih
  · exact List.map_snd_zip (by rw [List.length_map, h.length_eq])

theorem accepts_instId (instId : ℕ) : (NonNegativeNumberField (φ := φ)).Accepts (.int instId) := by
  unfold Validator.Accepts NonNegativeNumberField intField fieldBase
  simp [typeCheck, Value.isInstance, Value.typeName, Value.toInt]

theorem accepts_first {inner : Validator φ} {optional : Bool} {val : Value φ}
    (h : (IterableField inner optional).Accepts val) (n : ℕ) :
    (IterableField inner optional).Accepts (val.first n) := by
  obtain ⟨items, hval, hitems⟩ := seqField_accepts.1 h
  refine seqField_accepts.2 ⟨items.take n, ?_, ?_⟩
  · rcases hval with rfl | rfl
    · exact Or.inl rfl
    · exact Or.inr rfl
  · rw [firstError_eq_ok] at hitems ⊢
    exact fun val hval => hitems val (List.mem_of_mem_take hval)

/-- the messages with these fields are taken by every node that has not blacklisted the sender -/
def Arrives (L : Language φ) (cls : MessageClass φ) (fields : List (String × Value φ)) : Prop :=
  ∀ (node : NodeAuthn φ) (frm : String) (msg : Dict String (Value φ)), node.isNodeBlacklisted frm = false →
    msg.entries.Perm ((cls.asDict fields).map Value.wireEntry) →
      validateNodeMsg L node msg frm = .ok (some ((cls, fields.map Value.wireEntry), frm))

/-- a message of a class without dictionaries that needs no signature arrives -/
theorem arrives_of_stable {typename : String} {schema : Schema φ}
    (hwhite : MessageClass.messageBase typename schema ∈ authnWhitelist L) (hstable : ∀ x ∈ schema, x.2.Stable)
    {args : List (Value φ)} {fields : List (String × Value φ)}
    (hargs : (MessageClass.messageBase typename schema).ofArgs args = .ok fields) :
    Arrives L (.messageBase typename schema) fields := by
  have hcls := authnWhitelist_subset _ hwhite
  obtain ⟨hacc, -⟩ := (MessageClass.ofArgs_eq_ok (proper_registry _ hcls)).1 hargs
  intro node frm msg hblack hmsg
  have hwire : List.Forall₂ Fits schema (fields.map Value.wireEntry) :=
    forall₂_fits_wire hacc fun x hx _ _ h => hstable x hx _ h
  exact received_iff.2 ⟨hblack, ⟨hcls, hwire, hmsg⟩, Or.inl hwhite⟩

/-- **A PRE-PREPARE is answered.** For every PRE-PREPARE that a message can be made of, the replicas can construct the
PREPARE, the COMMIT and the ORDERED that follow it, and the first two are taken by the other nodes that have not
blacklisted the sender. -/
theorem prePrepare_answered {msg : Dict String (Value φ)} {pp : List (String × Value φ)}
    (h : constructMsg L msg = .ok (PrePrepare L, pp)) (instId : ℕ) :
    ∃ p c o, (Prepare L).ofArgs (prepareArgs instId pp) = .ok p ∧ Commit.ofArgs (commitArgs instId p) = .ok c ∧
      (Ordered L).ofArgs (orderedArgs instId pp) = .ok o ∧ Arrives L (Prepare L) p ∧ Arrives L Commit c := by
  obtain ⟨hmem, hpp, -⟩ := constructed_iff.1 h
  have hpp' := proper_registry _ hmem
  have hattr := accepts_attr hpp'.nodup hpp
  have hview := hattr "viewNo" NonNegativeNumberField (by simp)
  have hno := hattr "ppSeqNo" NonNegativeNumberField (by simp)
  have htime := hattr "ppTime" (TimestampField L) (by simp)
  have hidr := hattr "reqIdr" (IterableField (RequestIdentifierField L) false) (by simp)
  have hdigest := hattr "digest" (NonEmptyStringField false) (by simp)
  have hledger := hattr "ledgerId" (LedgerIdField L) (by simp)
  have hstate := hattr "stateRootHash" (HexField L 64 true) (by simp)
  have htxn := hattr "txnRootHash" (HexField L 64 true) (by simp)
  have hinst := accepts_instId (φ := φ) instId
  have hprepareWhite : Prepare L ∈ authnWhitelist L := by simp [authnWhitelist]
  have hcommitWhite : Commit ∈ authnWhitelist L := by simp [authnWhitelist]
  have hprepare : Prepare L ∈ registry L := authnWhitelist_subset _ hprepareWhite
  have hcommit : Commit ∈ registry L := authnWhitelist_subset _ hcommitWhite
  have hordered : Ordered L ∈ registry L := by simp [registry]
  obtain ⟨p, hp⟩ := constructed_of_accepts (proper_registry _ hprepare) (prepareArgs instId pp)
    (.cons hinst (.cons hview (.cons hno (.cons hdigest (.cons hstate (.cons htxn .nil))))))
  obtain ⟨o, ho⟩ := constructed_of_accepts (proper_registry _ hordered) (orderedArgs instId pp)
    (.cons hinst (.cons hview (.cons (accepts_first hidr _) (.cons hno (.cons htime (.cons hledger (.cons hstate
      (.cons htxn .nil))))))))
  -- the COMMIT takes its numbers from the PREPARE
  obtain ⟨haccp, -⟩ := (MessageClass.ofArgs_eq_ok (proper_registry _ hprepare)).1 hp
  have hattrp := accepts_attr (proper_registry _ hprepare).nodup haccp
  have hviewp := hattrp "viewNo" NonNegativeNumberField (by simp)
  have hnop := hattrp "ppSeqNo" NonNegativeNumberField (by simp)
  obtain ⟨c, hc⟩ := constructed_of_accepts (proper_registry _ hcommit) (commitArgs instId p)
    (.cons hinst (.cons hviewp (.cons hnop .nil)))
  have hnumber : (NonNegativeNumberField (φ := φ)).Stable := stable_intField _ _
  have hhex : (HexField L 64 true).Stable := stable_strField _ _ _
  have htext : (NonEmptyStringField (φ := φ) false).Stable := stable_strField _ _ _
  refine ⟨p, c, o, hp, hc, ho, arrives_of_stable hprepareWhite ?_ hp,
    arrives_of_stable hcommitWhite ?_ hc⟩
  · simp only [List.forall_mem_cons, List.not_mem_nil, false_implies, implies_true, and_true, hnumber, hhex, htext]
  · simp only [List.forall_mem_cons, List.not_mem_nil, false_implies, implies_true, and_true, hnumber]

/-! ## Witnesses -/

namespace Electing

/-- numbers with three decimals, counted in thousandths, and ASCII only -/
def language : Language ℤ where
  str _ := ""
  isZero x := x = 0
  nonPositive x := x ≤ 0
  thousandth := some
  isIpAddress _ := false
  unicode := ⟨fun _ => false, fun _ => none⟩
  alphabetText := ""

/-- two candidates with four nominations each -/
def tie : List (Value ℤ) := [.tuple [.str "Alpha:0", .int 4], .tuple [.str "Beta:0", .int 4]]

/-- the proposal of another round as it arrives, with another entry first and lists for tuples -/
def reelection : Dict String (Value ℤ) :=
  ⟨[("instId", .int 0), ("op", .str "REELECTION"), ("round", .int 1),
    ("tieAmong", .list [.list [.str "Alpha:0", .int 4], .list [.str "Beta:0", .int 4]]), ("viewNo", .int 2)], by decide⟩

def prePrepare : Dict String (Value ℤ) :=
  ⟨[("op", .str "PREPREPARE"), ("instId", .int 0), ("viewNo", .int 2), ("ppSeqNo", .int 7), ("ppTime", .float 1500),
    ("reqIdr", .list [.list [.str "5rArie7XKukPCaEwq5XGQJnM9Fc5aZE3M9HAPVfMU2xC", .int 3]]), ("discarded", .int 1),
    ("digest", .str "d"), ("ledgerId", .int 1), ("stateRootHash", .none), ("txnRootHash", .none)], by decide⟩

end Electing

open Electing in
theorem prePrepare_answered_seven : ∃ pp p c o, constructMsg language prePrepare = .ok (PrePrepare language, pp) ∧
    (Prepare language).ofArgs (prepareArgs 0 pp) = .ok p ∧ Commit.ofArgs (commitArgs 0 p) = .ok c ∧
    (Ordered language).ofArgs (orderedArgs 0 pp) = .ok o := by
  have h : ∃ pp, constructMsg language prePrepare = .ok (PrePrepare language, pp) := ⟨_, rfl⟩
  obtain ⟨pp, h⟩ := h
  obtain ⟨p, c, o, hp, hc, ho, -⟩ := prePrepare_answered h 0
  exact ⟨pp, p, c, o, h, hp, hc, ho⟩

end Plenum.Messages
