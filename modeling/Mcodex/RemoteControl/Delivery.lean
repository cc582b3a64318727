import Mcodex.RemoteControl.Outbound
import Mathlib.Data.List.Infix
import Mathlib.Data.List.Perm.Basic
import Mathlib.Data.List.TakeWhile

/-!
# Envelopes are numbered, kept and sent in order

What is buffered for a stream is a suffix of what was numbered for it, and so is, during a
connection, what the writer sent and still holds. With this, `InOrder` is an invariant of every run.
The counter saturates at the largest sequence id, so the ids are the numbers from one only as long as
the stream was given no more envelopes than there are ids.
-/

namespace Mcodex.RemoteControl

open Table Transition

universe u

variable {ε : Type u} {key : ClientKey}

/-! ## The envelopes of one stream -/

theorem ofKey_append (xs ys : List (ServerEnvelope ε)) :
    ofKey key (xs ++ ys) = ofKey key xs ++ ofKey key ys :=
  List.filter_append _ _

theorem ofKey_singleton (envelope : ServerEnvelope ε) :
    ofKey key [envelope] = if envelope.key = key then [envelope] else [] := by
  unfold ofKey
  rw [List.filter_singleton]
  simp

theorem ofKey_eq_self {envelopes : List (ServerEnvelope ε)}
    (h : ∀ envelope ∈ envelopes, envelope.key = key) : ofKey key envelopes = envelopes :=
  List.filter_eq_self.2 fun envelope he => by simpa using h envelope he

theorem ofKey_eq_nil {envelopes : List (ServerEnvelope ε)} {key' : ClientKey} (hne : key' ≠ key)
    (h : ∀ envelope ∈ envelopes, envelope.key = key') : ofKey key envelopes = [] :=
  List.filter_eq_nil_iff.2 fun envelope he => by simpa [h envelope he] using hne

theorem mem_dropWhile {α : Type u} {p : α → Bool} {xs : List α} {x : α} (hx : x ∈ xs)
    (hp : p x = false) : x ∈ xs.dropWhile p := by
  rw [← List.takeWhile_append_dropWhile (p := p) (l := xs)] at hx
  refine (List.mem_append.1 hx).resolve_left fun htake => ?_
  exact Bool.false_ne_true (hp.symm.trans (List.mem_takeWhile_imp htake))

/-! ## The buffer -/

namespace BoundedOutboundBuffer

variable {b : BoundedOutboundBuffer ε}

theorem popAcked_fst (ackedSeqId : Nat) (buffer : List (ServerEnvelope ε)) (used : Nat) :
    (popAcked ackedSeqId buffer used).1 = buffer.dropWhile (·.seqId ≤ ackedSeqId) := by
  induction buffer generalizing used with
  | nil => rfl
  | cons envelope rest ih =>
    rw [popAcked, List.dropWhile_cons]
    by_cases hle : envelope.seqId ≤ ackedSeqId
    · simp [hle, ih]
    · simp [hle]

theorem popAcked_snd (ackedSeqId : Nat) (buffer : List (ServerEnvelope ε)) (used : Nat) :
    (popAcked ackedSeqId buffer used).2 =
      used - (buffer.length - (popAcked ackedSeqId buffer used).1.length) := by
  induction buffer generalizing used with
  | nil => simp [popAcked]
  | cons envelope rest ih =>
    rw [popAcked]
    split
    · rw [ih]
      have hle : (popAcked ackedSeqId rest (used - 1)).1.length ≤ rest.length := by
        rw [popAcked_fst]
        exact (List.dropWhile_suffix _).length_le
      rw [List.length_cons]
      omega
    · simp

theorem buffer_insert (envelope : ServerEnvelope ε) :
    (b.insert envelope).buffer key = b.buffer key ++ ofKey key [envelope] := by
  rw [ofKey_singleton, buffer, insert, lookup_insert]
  by_cases hk : key = envelope.key
  · subst hk
    rw [if_pos rfl, if_pos rfl, Option.getD_some]
  · rw [if_neg hk, if_neg (Ne.symm hk), List.append_nil, buffer]

theorem buffer_ack (key' : ClientKey) (ackedSeqId : Nat) :
    (b.ack key' ackedSeqId).buffer key =
      if key = key' then (b.buffer key).dropWhile (·.seqId ≤ ackedSeqId) else b.buffer key := by
  unfold ack
  split
  · next hnone =>
    split
    · next hk =>
      subst hk
      simp [buffer, hnone]
    · rfl
  · next buffer hbuffer =>
    have hrest := popAcked_fst ackedSeqId buffer b.used
    by_cases hk : key = key'
    · subst hk
      have hb : b.buffer key = buffer := by rw [BoundedOutboundBuffer.buffer, hbuffer, Option.getD_some]
      rw [if_pos rfl, hb, ← hrest, BoundedOutboundBuffer.buffer]
      dsimp only
      split
      · next hnil =>
        rw [AList.lookup_erase, List.isEmpty_iff.1 hnil, Option.getD_none]
      · rw [AList.lookup_insert, Option.getD_some]
    · rw [if_neg hk, BoundedOutboundBuffer.buffer, BoundedOutboundBuffer.buffer]
      dsimp only
      split
      · rw [AList.lookup_erase_ne hk]
      · rw [AList.lookup_insert_ne hk]

/-! ### The counter -/

theorem size_kerase (key : ClientKey) (entries : List (Sigma fun _ : ClientKey =>
    List (ServerEnvelope ε))) :
    (entries.map fun entry => entry.2.length).sum =
      ((entries.dlookup key).getD []).length +
        ((entries.kerase key).map fun entry => entry.2.length).sum := by
  induction entries with
  | nil => simp
  | cons entry rest ih =>
    by_cases hk : key = entry.1
    · obtain ⟨_, buffer⟩ := entry
      subst hk
      simp
    · rw [List.dlookup_cons_ne _ _ hk, List.kerase_cons_ne hk]
      simp only [List.map_cons, List.sum_cons, ih]
      omega

theorem size_eq (b : BoundedOutboundBuffer ε) (key : ClientKey) :
    b.size = (b.buffer key).length +
      ((b.bufferByStream.entries.kerase key).map fun entry => entry.2.length).sum :=
  size_kerase key _

theorem size_insert (envelope : ServerEnvelope ε) : (b.insert envelope).size = b.size + 1 := by
  rw [size_eq b envelope.key, size, insert, AList.entries_insert]
  simp only [List.map_cons, List.sum_cons, List.length_append, List.length_singleton]
  omega

theorem size_ack (key : ClientKey) (ackedSeqId : Nat) (hused : b.used = b.size) :
    (b.ack key ackedSeqId).used = (b.ack key ackedSeqId).size := by
  unfold ack
  split
  · exact hused
  · next buffer hbuffer =>
    have hsize := size_eq b key
    have hb : b.buffer key = buffer := by
      rw [BoundedOutboundBuffer.buffer, hbuffer, Option.getD_some]
    have hle : (popAcked ackedSeqId buffer b.used).1.length ≤ buffer.length := by
      rw [popAcked_fst]
      exact (List.dropWhile_suffix _).length_le
    have hused' := popAcked_snd ackedSeqId buffer b.used
    generalize popAcked ackedSeqId buffer b.used = rest at hle hused' ⊢
    rw [hb, ← hused] at hsize
    rw [size]
    dsimp only
    split
    · next hnil =>
      rw [List.isEmpty_iff.1 hnil, List.length_nil] at hused'
      show rest.2 = ((b.bufferByStream.entries.kerase key).map fun entry => entry.2.length).sum
      omega
    · rw [AList.entries_insert]
      simp only [List.map_cons, List.sum_cons]
      omega

theorem ack_insert_new {envelope : ServerEnvelope ε} {ackedSeqId : Nat}
    (hle : envelope.seqId ≤ ackedSeqId) :
    ((new : BoundedOutboundBuffer ε).insert envelope).ack envelope.key ackedSeqId = new := by
  have hbuffer : ((new : BoundedOutboundBuffer ε).insert envelope).bufferByStream.lookup
      envelope.key = some [envelope] := AList.lookup_insert _
  have herase : ((new : BoundedOutboundBuffer ε).insert envelope).bufferByStream.erase
      envelope.key = ∅ := by
    refine AList.ext (List.kerase_cons_eq ?_)
    rfl
  rw [ack, hbuffer]
  simp only [popAcked, if_pos hle, List.isEmpty_nil, if_true, herase]
  rfl

/-- A buffer whose envelopes stand under their own streams, replayed stream by stream. -/
theorem ofKey_serverEnvelopes {order : List ClientKey} (horder : order.Perm b.bufferByStream.keys)
    (hkeyed : ∀ key, ∀ envelope ∈ b.buffer key, envelope.key = key) (key : ClientKey) :
    ofKey key (b.serverEnvelopes order) = b.buffer key := by
  have hflat : ∀ keys : List ClientKey, keys.Nodup → ofKey key (keys.flatMap b.buffer) =
      if key ∈ keys then b.buffer key else [] := by
    intro keys hnodup
    induction keys with
    | nil => rfl
    | cons key' keys ih =>
      obtain ⟨hnew, hnodup⟩ := List.nodup_cons.1 hnodup
      rw [List.flatMap_cons, ofKey_append, ih hnodup]
      by_cases hk : key' = key
      · subst hk
        rw [ofKey_eq_self (hkeyed key'), if_neg hnew, List.append_nil, if_pos List.mem_cons_self]
      · rw [ofKey_eq_nil hk (hkeyed key'), List.nil_append]
        simp [Ne.symm hk]
  rw [serverEnvelopes, hflat order (horder.nodup_iff.2 b.bufferByStream.keys_nodup)]
  split
  · rfl
  · next hmem =>
    have hnone : b.bufferByStream.lookup key = none := by
      rw [AList.lookup_eq_none, AList.mem_keys, ← horder.mem_iff]
      exact hmem
    rw [buffer, hnone, Option.getD_none]

end BoundedOutboundBuffer

/-! ## The invariant -/

/-- The ids of `n` envelopes of a stream. -/
def firstSeqIds (n : Nat) : List Nat := (List.range' 1 n).map (min · maxSeqId)

theorem firstSeqIds_succ (n : Nat) :
    firstSeqIds (n + 1) = firstSeqIds n ++ [min (n + 1) maxSeqId] := by
  rw [firstSeqIds, List.range'_1_concat, List.map_append, List.map_singleton, Nat.add_comm 1 n]
  rfl

/-- Up to the largest sequence id, the ids are the numbers from one. -/
theorem firstSeqIds_eq {n : Nat} (h : n ≤ maxSeqId) : firstSeqIds n = List.range' 1 n := by
  refine (List.map_congr_left fun seqId hseqId => ?_).trans (List.map_id _)
  rw [List.mem_range'_1] at hseqId
  show min seqId maxSeqId = seqId
  omega

/-- What a connection sent is all of what it began with and more, or the first part of it. -/
def Outbound.Begins (t : Outbound ε) : Prop :=
  match t.writer with
  | .disconnected => t.sent <+: t.replayed ∨ t.replayed <+: t.sent
  | .replaying rest => t.sent ++ rest = t.replayed
  | _ => t.replayed <+: t.sent

theorem Outbound.Begins.isPrefix {t : Outbound ε} (h : t.Begins) :
    t.sent <+: t.replayed ∨ t.replayed <+: t.sent := by
  unfold Outbound.Begins at h
  split at h
  · exact h
  · exact .inl (h ▸ List.prefix_append _ _)
  · exact .inr h

structure InOrder (t : Outbound ε) : Prop where
  numbered : ∀ key, (ofKey key t.assigned).map ServerEnvelope.seqId =
    firstSeqIds (ofKey key t.assigned).length
  next : ∀ key, t.state.nextSeqId key = min ((ofKey key t.assigned).length + 1) maxSeqId
  buffered : ∀ key, t.state.outboundBuffer.buffer key <:+ ofKey key t.assigned
  kept : ∀ envelope ∈ t.assigned,
    envelope ∈ t.state.outboundBuffer.buffer envelope.key ∨ t.Acked envelope
  used : t.state.outboundBuffer.used = t.state.outboundBuffer.size
  /-- What a connection sent is a stretch of what was numbered. -/
  stretch : ∀ key, ofKey key t.sent <:+: ofKey key t.assigned
  /-- During a connection, what it sent and still holds reaches to the newest envelope. -/
  newest : t.writer ≠ .disconnected →
    ∀ key, ofKey key (t.sent ++ t.writer.unsent) <:+ ofKey key t.assigned
  begins : t.Begins

namespace InOrder

variable {t : Outbound ε}

theorem new : InOrder (.new : Outbound ε) where
  numbered _ := rfl
  next _ := rfl
  buffered _ := List.nil_suffix
  kept _ h := nomatch h
  used := rfl
  stretch _ := List.nil_infix
  newest h := absurd rfl h
  begins := .inl List.nil_prefix

theorem keyed (h : InOrder t) (key : ClientKey) :
    ∀ envelope ∈ t.state.outboundBuffer.buffer key, envelope.key = key := by
  intro envelope he
  simpa using List.of_mem_filter ((h.buffered key).subset he)

/-- The writer moves on and sends what `stretch` says. -/
theorem write (h : InOrder t) {writer : Writer ε} {queue sent}
    (hstretch : ∀ key, ofKey key sent <:+: ofKey key t.assigned)
    (hnewest : writer ≠ .disconnected →
      ∀ key, ofKey key (sent ++ writer.unsent) <:+ ofKey key t.assigned)
    (hbegins : Outbound.Begins { t with writer, sent }) :
    InOrder { t with writer, queue, sent } :=
  { h with stretch := hstretch, newest := hnewest, begins := hbegins }

theorem receive (h : InOrder t) (envelope : ClientEnvelope) :
    InOrder { t with state := t.state.receive envelope, acks := t.acks ++ ackOf envelope } := by
  unfold WebsocketState.receive ackOf
  split
  · next ackedSeqId streamId _ _ _ =>
    refine { h with buffered := fun key => ?_, kept := fun e he => ?_, used := ?_ }
    · dsimp only
      rw [BoundedOutboundBuffer.buffer_ack]
      split
      · exact (List.dropWhile_suffix _).trans (h.buffered key)
      · exact h.buffered key
    · dsimp only
      rw [BoundedOutboundBuffer.buffer_ack]
      rcases h.kept e he with hbuffer | ⟨ack, hack, hcovers⟩
      · split
        · next hkey =>
          by_cases hle : e.seqId ≤ ackedSeqId
          · exact .inr ⟨_, List.mem_append_right _ (List.mem_singleton_self _), hkey.symm, hle⟩
          · exact .inl (mem_dropWhile hbuffer (by simpa using hle))
        · exact .inl hbuffer
      · exact .inr ⟨ack, List.mem_append_left _ hack, hcovers⟩
    · exact BoundedOutboundBuffer.size_ack _ _ h.used
  · simpa using h

theorem connect (h : InOrder t) {order : List ClientKey}
    (horder : order.Perm t.state.outboundBuffer.bufferByStream.keys) :
    InOrder { t with
      writer := .replaying (t.state.outboundBuffer.serverEnvelopes order)
      replayed := t.state.outboundBuffer.serverEnvelopes order
      sent := [] } := by
  refine { h with stretch := fun key => List.nil_infix, newest := fun _ key => ?_, begins := rfl }
  show ofKey key (t.state.outboundBuffer.serverEnvelopes order) <:+ _
  rw [BoundedOutboundBuffer.ofKey_serverEnvelopes horder h.keyed]
  exact h.buffered key

theorem assign (h : InOrder t) {queued : QueuedServerEnvelope ε}
    (hwriter : t.writer = .received queued) :
    InOrder { t with
      writer := .sending (t.state.assign queued).1
      state := (t.state.assign queued).2
      assigned := t.assigned ++ [(t.state.assign queued).1] } := by
  obtain ⟨event, clientId, streamId⟩ := queued
  let envelope := (t.state.assign ⟨event, clientId, streamId⟩).1
  have hseqId : envelope.seqId = min ((ofKey envelope.key t.assigned).length + 1) maxSeqId :=
    h.next envelope.key
  have hnext : ∀ key, (t.state.assign ⟨event, clientId, streamId⟩).2.nextSeqId key =
      if key = envelope.key then min (envelope.seqId + 1) maxSeqId else t.state.nextSeqId key := by
    intro key
    show ((t.state.nextSeqIdByStream.insert envelope.key
      (min (envelope.seqId + 1) maxSeqId)).lookup key).getD 1 = _
    rw [lookup_insert]
    split
    · rfl
    · rfl
  have hsent : ∀ key, ofKey key t.sent <:+ ofKey key t.assigned := by
    have hnewest := h.newest (by rw [hwriter]; exact nofun)
    rw [hwriter] at hnewest
    intro key
    simpa [Writer.unsent] using hnewest key
  refine ⟨fun key => ?_, fun key => ?_, fun key => ?_, fun e he => ?_, ?_, fun key => ?_,
    fun _ key => ?_, ?_⟩
  · show (ofKey key (t.assigned ++ [envelope])).map _ =
      firstSeqIds (ofKey key (t.assigned ++ [envelope])).length
    rw [ofKey_append, ofKey_singleton, List.map_append, h.numbered key]
    split
    · next hk =>
      subst hk
      rw [List.length_append, List.length_singleton, firstSeqIds_succ, List.map_singleton, hseqId]
    · rw [List.append_nil, List.map_nil, List.append_nil]
  · show (t.state.assign ⟨event, clientId, streamId⟩).2.nextSeqId key =
      min ((ofKey key (t.assigned ++ [envelope])).length + 1) maxSeqId
    rw [hnext, ofKey_append, ofKey_singleton, List.length_append]
    by_cases hk : key = envelope.key
    · subst hk
      rw [if_pos rfl, if_pos rfl, hseqId, List.length_singleton]
      omega
    · rw [if_neg hk, if_neg (Ne.symm hk), h.next key]
      rfl
  · show (t.state.outboundBuffer.insert envelope).buffer key <:+ ofKey key (t.assigned ++ [envelope])
    rw [BoundedOutboundBuffer.buffer_insert, ofKey_append]
    exact List.suffix_append_self_iff.2 (h.buffered key)
  · show e ∈ (t.state.outboundBuffer.insert envelope).buffer e.key ∨ _
    rw [BoundedOutboundBuffer.buffer_insert]
    rcases List.mem_append.1 he with he | he
    · exact (h.kept e he).imp (List.mem_append_left _) id
    · refine .inl (List.mem_append_right _ ?_)
      rw [List.mem_singleton.1 he]
      simp [ofKey, envelope]
  · show t.state.outboundBuffer.used + 1 = (t.state.outboundBuffer.insert envelope).size
    rw [BoundedOutboundBuffer.size_insert, h.used]
  · show ofKey key t.sent <:+: ofKey key (t.assigned ++ [envelope])
    rw [ofKey_append]
    exact (h.stretch key).trans (List.prefix_append _ _).isInfix
  · show ofKey key (t.sent ++ [envelope]) <:+ ofKey key (t.assigned ++ [envelope])
    rw [ofKey_append, ofKey_append]
    exact List.suffix_append_self_iff.2 (hsent key)
  · have := h.begins
    rw [Outbound.Begins, hwriter] at this
    exact this

theorem step (h : InOrder t) {event : OutboundEvent ε} {t' : Outbound ε}
    (hstep : Delivers t event t') : InOrder t' := by
  have hbegins := h.begins
  rw [Outbound.Begins] at hbegins
  cases hstep with
  | enqueue => exact { h with }
  | receive => exact h.receive _
  | connect _ horder => exact h.connect horder
  | @replayNext envelope rest hwriter =>
    have hnewest := h.newest (by rw [hwriter]; exact nofun)
    rw [hwriter] at hbegins hnewest
    have hsplit : t.sent ++ envelope :: rest = t.sent ++ [envelope] ++ rest := by simp
    refine { h with stretch := fun key => ?_, newest := fun _ key => ?_, begins := ?_ }
    · refine List.IsInfix.trans ?_ (hnewest key).isInfix
      rw [Writer.unsent, hsplit, ofKey_append _ rest]
      exact (List.prefix_append _ _).isInfix
    · rw [Writer.unsent, ← hsplit]
      exact hnewest key
    · exact hsplit.symm.trans hbegins
  | replayDone hwriter =>
    have hnewest := h.newest (by rw [hwriter]; exact nofun)
    rw [hwriter] at hbegins hnewest
    refine { h with newest := fun _ => hnewest, begins := ?_ }
    show t.replayed <+: t.sent
    rw [← hbegins, List.append_nil]
  | take hwriter =>
    have hnewest := h.newest (by rw [hwriter]; exact nofun)
    rw [hwriter] at hbegins hnewest
    exact { h with newest := fun _ => hnewest, begins := hbegins }
  | assign hwriter => exact h.assign hwriter
  | @send envelope hwriter =>
    have hnewest := h.newest (by rw [hwriter]; exact nofun)
    rw [hwriter] at hbegins hnewest
    refine { h with
      stretch := fun key => (hnewest key).isInfix
      newest := fun _ key => ?_
      begins := List.IsPrefix.trans hbegins (List.prefix_append _ _) }
    show ofKey key (t.sent ++ [envelope] ++ []) <:+ _
    rw [List.append_nil]
    exact hnewest key
  | disconnect => exact { h with newest := fun hc => absurd rfl hc, begins := h.begins.isPrefix }

theorem of_reach (h : outbound.Reach t) : InOrder t := by
  refine h.invariant ?_ fun t event t' h hstep => h.step hstep
  rintro _ rfl
  exact .new

/-- As long as no id is given twice, a connection sends a stream's envelopes in the order of their
ids. -/
theorem sent_increasing (h : InOrder t) {key : ClientKey}
    (hfew : (ofKey key t.assigned).length ≤ maxSeqId) :
    (ofKey key t.sent).Pairwise fun e e' => e.seqId < e'.seqId := by
  have hassigned : (ofKey key t.assigned).Pairwise fun e e' => e.seqId < e'.seqId := by
    rw [← List.pairwise_map, h.numbered key, firstSeqIds_eq hfew]
    exact List.pairwise_lt_range'
  exact hassigned.sublist (h.stretch key).sublist

end InOrder

/-- For any interleaving: a stream's ids are the numbers from one, and a connection sends the stream
in their order, as long as the stream was given no more envelopes than there are ids; an envelope
leaves the buffer when an acknowledgement covers it; a connection begins with what is buffered, which
is all that no acknowledgement covers; and the counter counts the buffered envelopes. -/
theorem delivered_in_order {t : Outbound ε} (h : outbound.Reach t) :
    (∀ key, (ofKey key t.assigned).length < 2 ^ 64 →
      (ofKey key t.assigned).map ServerEnvelope.seqId =
        List.range' 1 (ofKey key t.assigned).length ∧
      (ofKey key t.sent).Pairwise fun e e' => e.seqId < e'.seqId) ∧
    (∀ envelope ∈ t.assigned,
      envelope ∈ t.state.outboundBuffer.buffer envelope.key ∨ t.Acked envelope) ∧
    (∀ order t', outbound.step t (.connect order) t' → t'.sent = [] ∧
      (∀ key, ofKey key t'.replayed = t.state.outboundBuffer.buffer key) ∧
      ∀ envelope ∈ t.assigned, ¬ t.Acked envelope → envelope ∈ t'.replayed) ∧
    (t.sent <+: t.replayed ∨ t.replayed <+: t.sent) ∧
    t.state.outboundBuffer.used = t.state.outboundBuffer.size := by
  have ho := InOrder.of_reach h
  refine ⟨fun key hfew => ?_, ho.kept, fun order t' hstep => ?_, ho.begins.isPrefix, ho.used⟩
  · have hle : (ofKey key t.assigned).length ≤ maxSeqId := Nat.le_pred_of_lt hfew
    exact ⟨(ho.numbered key).trans (firstSeqIds_eq hle), ho.sent_increasing hle⟩
  · cases hstep with
    | connect _ horder =>
      have hreplayed := BoundedOutboundBuffer.ofKey_serverEnvelopes horder ho.keyed
      refine ⟨rfl, hreplayed, fun envelope he hacked => ?_⟩
      have hbuffer := (ho.kept envelope he).resolve_right hacked
      rw [← hreplayed envelope.key] at hbuffer
      exact List.mem_of_mem_filter hbuffer

/-! ## More envelopes than ids -/

def exampleStream : ClientKey := ("client-1", "stream-1")

def exampleQueued : QueuedServerEnvelope Unit := ⟨(), "client-1", "stream-1"⟩

/-- A connection without buffered envelopes. -/
def exampleConnected : Outbound Unit := { Outbound.new with writer := .serving }

theorem exampleConnected_reach : outbound.Reach exampleConnected := by
  have hconnect : Delivers (.new : Outbound Unit) (.connect []) { Outbound.new with
      writer := .replaying [] } := .connect rfl .nil
  exact .step (.step (.init rfl) hconnect) (.replayDone rfl)

/-- An envelope is queued, taken and numbered. -/
theorem exampleAssign {t : Outbound Unit} (h : outbound.Reach t) (hwriter : t.writer = .serving)
    (hqueue : t.queue = []) (hbuffer : t.state.outboundBuffer = .new) :
    outbound.Reach { t with
      writer := .sending (t.state.assign exampleQueued).1
      queue := []
      state := (t.state.assign exampleQueued).2
      assigned := t.assigned ++ [(t.state.assign exampleQueued).1] } := by
  have henqueue : Delivers t (.enqueue exampleQueued) { t with queue := [exampleQueued] } := by
    have := @Delivers.enqueue _ t exampleQueued
    rwa [hqueue] at this
  have hcapacity : t.state.outboundBuffer.used < channelCapacity := by
    rw [hbuffer]
    decide
  have htake := @Delivers.take _ { t with queue := [exampleQueued] } exampleQueued [] hwriter
    hcapacity rfl
  exact .step (.step (.step h henqueue) htake) (.assign rfl)

/-- The first envelope of a connection. -/
theorem delivered_in_order_example :
    let t := { exampleConnected with
      writer := .sending (exampleConnected.state.assign exampleQueued).1
      queue := []
      state := (exampleConnected.state.assign exampleQueued).2
      assigned := exampleConnected.assigned ++ [(exampleConnected.state.assign exampleQueued).1] }
    (∀ key, (ofKey key t.assigned).length < 2 ^ 64 →
      (ofKey key t.assigned).map ServerEnvelope.seqId =
        List.range' 1 (ofKey key t.assigned).length ∧
      (ofKey key t.sent).Pairwise fun e e' => e.seqId < e'.seqId) ∧
    (∀ envelope ∈ t.assigned,
      envelope ∈ t.state.outboundBuffer.buffer envelope.key ∨ t.Acked envelope) ∧
    (∀ order t', outbound.step t (.connect order) t' → t'.sent = [] ∧
      (∀ key, ofKey key t'.replayed = t.state.outboundBuffer.buffer key) ∧
      ∀ envelope ∈ t.assigned, ¬ t.Acked envelope → envelope ∈ t'.replayed) ∧
    (t.sent <+: t.replayed ∨ t.replayed <+: t.sent) ∧
    t.state.outboundBuffer.used = t.state.outboundBuffer.size :=
  delivered_in_order (exampleAssign exampleConnected_reach rfl rfl rfl)

/-- Any number of envelopes, each acknowledged before the next. -/
theorem exampleNumbered (n : Nat) :
    ∃ t : Outbound Unit, outbound.Reach t ∧ t.writer = .serving ∧ t.queue = [] ∧
      t.state.outboundBuffer = .new ∧ (ofKey exampleStream t.assigned).length = n := by
  induction n with
  | zero => exact ⟨exampleConnected, exampleConnected_reach, rfl, rfl, rfl, rfl⟩
  | succ n ih =>
    obtain ⟨t, h, hwriter, hqueue, hbuffer, hn⟩ := ih
    have hassign := exampleAssign h hwriter hqueue hbuffer
    have hsend := hassign.step (.send rfl)
    have hack := hsend.step (@Delivers.receive _ _
      ⟨.ack, "client-1", some "stream-1", some maxSeqId⟩)
    refine ⟨_, hack, rfl, rfl, ?_, ?_⟩
    · have hle : (t.state.assign exampleQueued).1.seqId ≤ maxSeqId := by
        show t.state.nextSeqId exampleStream ≤ maxSeqId
        rw [(InOrder.of_reach h).next]
        omega
      show (t.state.outboundBuffer.insert (t.state.assign exampleQueued).1).ack
        (t.state.assign exampleQueued).1.key maxSeqId = .new
      rw [hbuffer]
      exact BoundedOutboundBuffer.ack_insert_new hle
    · show (ofKey exampleStream (t.assigned ++ [_])).length = n + 1
      rw [ofKey_append, List.length_append, hn]
      rfl

/-- Once a stream was given as many envelopes as there are ids, the last id is given again. -/
theorem seqId_given_twice : ∃ t : Outbound Unit, outbound.Reach t ∧
    (ofKey exampleStream t.assigned).map ServerEnvelope.seqId ≠
      List.range' 1 (ofKey exampleStream t.assigned).length := by
  obtain ⟨t, h, -, -, -, hn⟩ := exampleNumbered (maxSeqId + 1)
  refine ⟨t, h, fun heq => ?_⟩
  rw [(InOrder.of_reach h).numbered, hn, firstSeqIds_succ, List.range'_1_concat] at heq
  have hlast := List.append_inj_right' heq rfl
  simp at hlast

end Mcodex.RemoteControl
