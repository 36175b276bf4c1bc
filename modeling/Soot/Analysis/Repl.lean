import Soot.Analysis.Script.Archive
import Soot.Model.RemoteCall

/-!
# What the nREPL delivers

Reading is by the bytes that arrive and not by their portions (`readFully_ok`), so the server takes
the messages of each client in order, whatever the others send, and answers each once. A client is
greeted with text outside a frame, which its first calls take for frames.
-/

set_option autoImplicit false

namespace Soot.Analysis

open Soot.Computation Soot.Program Soot.Program.ReplServerMessageType Soot.Model
open Script (length_littleEndian ofLittleEndian_littleEndian)

variable {σ : Type} {handle : σ → Text → Text × σ} {tick : σ → σ} {sock : ℕ}
  {before after server : ReplServer}

/-! ## Reading -/

theorem readFully_ok (want : ℕ) (arrivals : Arrivals) (h : want ≤ arrivals.flatten.length) :
    ∃ left, readFully want arrivals = some (arrivals.flatten.take want, left) ∧
      left.flatten = arrivals.flatten.drop want := by
  induction arrivals generalizing want with
  | nil =>
    have hzero : want = 0 := by simpa using h
    exact ⟨[], by simp [readFully, hzero], by simp⟩
  | cons part rest ih =>
    rw [List.flatten_cons, List.length_append] at h
    simp only [readFully, List.flatten_cons]
    by_cases hle : want ≤ part.length
    · refine ⟨part.drop want :: rest, ?_, ?_⟩
      · rw [if_pos hle, List.take_append_of_le_length hle]
      · rw [List.flatten_cons, List.drop_append_of_le_length hle]
    · obtain ⟨left, hread, hleft⟩ := ih (want - part.length)
        (Nat.sub_le_iff_le_add'.mpr h)
      have hpart : part.length ≤ want := Nat.le_of_not_le hle
      refine ⟨left, ?_, ?_⟩
      · rw [if_neg hle, hread, List.take_append, List.take_of_length_le hpart, Option.map_some]
      · rw [hleft, List.drop_append, List.drop_eq_nil_of_le hpart, List.nil_append]

theorem readFully_none {want : ℕ} {arrivals : Arrivals} (h : arrivals.flatten.length < want) :
    readFully want arrivals = none := by
  induction arrivals generalizing want with
  | nil => exact if_neg (by simp at h; omega)
  | cons part rest ih =>
    rw [List.flatten_cons, List.length_append] at h
    rw [readFully, if_neg (by omega), ih (by omega), Option.map_none]

theorem length_frame (type : BitVec 32) (payload : Text) :
    (frame type payload).length = 8 + payload.length := by
  rw [frame, ReplServerHeader.bytes, List.length_append, List.length_append,
    length_littleEndian, length_littleEndian]

theorem ofBytes_frame {type : BitVec 32} {payload : Text} (more : Text) :
    ReplServerHeader.ofBytes ((frame type payload ++ more).take 8) =
      ⟨BitVec.ofNat 32 payload.length, type⟩ := by
  have htake : (frame type payload ++ more).take 8 =
      Script.littleEndian 4 (BitVec.ofNat 32 payload.length).toNat ++
        Script.littleEndian 4 type.toNat := by
    rw [frame, List.append_assoc]
    exact List.take_left' (by simp [ReplServerHeader.bytes, length_littleEndian])
  have hfour := fun v : ℕ => length_littleEndian 4 v
  have hword : ∀ v : BitVec 32, BitVec.ofNat 32 (v.toNat % 256 ^ 4) = v := by
    intro v
    have hlt : v.toNat < 256 ^ 4 := v.isLt
    rw [Nat.mod_eq_of_lt hlt, BitVec.ofNat_toNat, BitVec.setWidth_eq]
  rw [htake, ReplServerHeader.ofBytes, List.take_left' (hfour _), List.drop_left' (hfour _),
    ofLittleEndian_littleEndian, ofLittleEndian_littleEndian, hword, hword]

theorem drop_frame {type : BitVec 32} {payload : Text} (more : Text) :
    (frame type payload ++ more).drop 8 = payload ++ more := by
  rw [frame, List.append_assoc]
  exact List.drop_left' (by simp [ReplServerHeader.bytes, length_littleEndian])

theorem length_word {n : ℕ} (h : n < 2 ^ 31) :
    (BitVec.ofNat 32 n).toNat = n ∧ (BitVec.ofNat 32 n).toInt = n := by
  have hnat : (BitVec.ofNat 32 n).toNat = n := by
    rw [BitVec.toNat_ofNat, Nat.mod_eq_of_lt (by omega)]
  refine ⟨hnat, ?_⟩
  rw [BitVec.toInt_eq_toNat_of_lt (by omega), hnat]

/-! ## One client -/

/-- What is taken of the messages of a client, and written to it, between two states of the server;
the last message that was taken, which is no ping, may be without its answer. -/
def Serves (handle : σ → Text → Text × σ) (sock : ℕ) (tail : Text)
    (taken : List (BitVec 32 × Text)) (before after : ReplServer) : Prop :=
  (∀ m ∈ taken, m.1 ≠ PING) ∧ ∀ sent, (∀ m ∈ sent, Sends m) → Delivers sock tail sent before →
    ∃ done rest writes, sent = done ++ (taken ++ rest) ∧
      writtenTo sock after = writtenTo sock before ++ writes ∧
      List.Forall₂ (RepliesTo handle sock) done writes ∧ Delivers sock tail rest after

variable {tail : Text} {taken : List (BitVec 32 × Text)}

theorem serves_of_same (hmem : sock ∈ after.clientSockets ↔ sock ∈ before.clientSockets)
    (harrivals : after.arrivals sock = before.arrivals sock)
    (hwritten : writtenTo sock after = writtenTo sock before) :
    Serves handle sock tail [] before after := by
  refine ⟨List.forall_mem_nil _, ?_⟩
  intro sent _ hpending
  refine ⟨[], sent, [], rfl, by rw [hwritten, List.append_nil], List.Forall₂.nil, ?_⟩
  simpa only [Delivers, hmem, harrivals] using hpending

theorem Serves.trans {middle : ReplServer} (h : Serves handle sock tail [] before middle)
    (h' : Serves handle sock tail taken middle after) :
    Serves handle sock tail taken before after := by
  refine ⟨h'.1, ?_⟩
  intro sent hsends hpending
  obtain ⟨done, rest, writes, rfl, hwritten, hanswers, hmiddle⟩ := h.2 sent hsends hpending
  obtain ⟨done', rest', writes', rfl, hwritten', hanswers', hafter⟩ :=
    h'.2 rest (fun m hm => hsends m (by simp [hm])) hmiddle
  refine ⟨done ++ done', rest', writes ++ writes', by simp, ?_, ?_, hafter⟩
  · rw [hwritten', hwritten, List.append_assoc]
  · exact List.rel_append hanswers hanswers'

theorem writtenTo_write (socket : ℕ) (answers : Option ReplServerMessage) (bytes : Text) :
    writtenTo sock (server.write socket answers bytes) =
      writtenTo sock server ++ if socket = sock then [⟨socket, answers, bytes⟩] else [] := by
  rw [writtenTo, ReplServer.write, List.filter_append, List.filter_singleton, Bool.cond_decide]
  rfl

/-- The message of a client, if this is one. -/
def takenBy (sock : ℕ) : Option ReplServerMessage → List (BitVec 32 × Text)
  | none => []
  | some message => if message.socket = sock then [(message.type, message.payload)] else []

/-- The turn of another client. -/
theorem serves_turn_other {socket : ℕ} (hne : socket ≠ sock) :
    Serves handle sock tail (takenBy sock (server.clientTurn socket).1) server
      (server.clientTurn socket).2 := by
  have hdrop : Serves handle sock tail [] server (server.drop socket) := by
    apply serves_of_same
    · simp [ReplServer.drop, hne.symm]
    · rfl
    · rfl
  have hset : ∀ left, Serves handle sock tail [] server (server.setArrivals socket left) := by
    intro left
    exact serves_of_same Iff.rfl (Function.update_of_ne hne.symm _ _) rfl
  rw [ReplServer.clientTurn]
  split
  · exact hdrop
  dsimp only
  split_ifs
  · refine (hset _).trans (serves_of_same Iff.rfl rfl ?_)
    rw [writtenTo_write, if_neg hne, List.append_nil]
  · exact hdrop
  split
  · exact hdrop
  · rw [takenBy, if_neg hne]
    exact hset _

/-- The turn of the client, which has sent nothing more but a part of a message. -/
theorem clientTurn_cutOff (htail : CutOff tail) (h : (server.arrivals sock).flatten = tail) :
    server.clientTurn sock = (none, server.drop sock) := by
  obtain ⟨m, hsends, ⟨more, htext⟩, hshort⟩ := htail
  rw [length_frame] at hshort
  rw [ReplServer.clientTurn]
  by_cases hheader : tail.length < 8
  · rw [readFully_none (by rwa [h])]
  obtain ⟨left, hread, hleft⟩ := readFully_ok 8 (server.arrivals sock)
    (by rw [h]; omega)
  have hbytes : tail.take 8 = (frame m.1 m.2 ++ []).take 8 := by
    rw [List.append_nil, ← htext, List.take_append_of_le_length (by omega)]
  rw [hread, h, hbytes]
  dsimp only
  rw [ofBytes_frame]
  obtain ⟨hsize, hlength⟩ := length_word hsends.1
  have hping : m.1 ≠ PING := by
    intro hping
    rw [hsends.2 hping, List.length_nil] at hshort
    omega
  rw [if_neg hping, if_neg (by rw [hlength]; omega), hsize,
    readFully_none (by rw [hleft, h, List.length_drop]; omega)]

/-- The turn of the client, which has sent a message. -/
theorem clientTurn_sent {m : BitVec 32 × Text} (hsends : Sends m) {more : Text}
    (h : (server.arrivals sock).flatten = frame m.1 m.2 ++ more) :
    ∃ left : Arrivals, left.flatten = more ∧
      server.clientTurn sock = if m.1 = PING then
        (none, (server.setArrivals sock left).write sock (some ⟨sock, m.2, m.1⟩)
          ReplServer.pingText)
        else (some ⟨sock, m.2, m.1⟩, server.setArrivals sock left) := by
  obtain ⟨hsize, hlength⟩ := length_word hsends.1
  have hlong := length_frame m.1 m.2
  obtain ⟨left, hread, hleft⟩ := readFully_ok 8 (server.arrivals sock)
    (by rw [h, List.length_append]; omega)
  have hbody : left.flatten = m.2 ++ more := by rw [hleft, h, drop_frame]
  rw [ReplServer.clientTurn, hread, h]
  dsimp only
  rw [ofBytes_frame]
  by_cases hping : m.1 = PING
  · rw [hsends.2 hping] at hbody
    refine ⟨left, hbody, ?_⟩
    rw [if_pos hping, if_pos hping, hsends.2 hping, hping]
  · obtain ⟨rest, hpayload, hrest⟩ := readFully_ok m.2.length left
      (by rw [hbody, List.length_append]; omega)
    rw [hbody, List.drop_left] at hrest
    refine ⟨rest, hrest, ?_⟩
    rw [if_neg hping, if_neg hping, if_neg (by rw [hlength]; omega), hsize, hpayload, hbody,
      List.take_left]

theorem turn_ne_ping (message : ReplServerMessage) (socket : ℕ)
    (h : (server.clientTurn socket).1 = some message) : message.type ≠ PING := by
  rw [ReplServer.clientTurn] at h
  split at h
  · cases h
  dsimp only at h
  split_ifs at h with hping
  split at h
  · cases h
  · cases h
    exact hping

theorem serves_turn_own (htail : CutOff tail) (hmem : sock ∈ server.clientSockets) :
    Serves handle sock tail (takenBy sock (server.clientTurn sock).1) server
      (server.clientTurn sock).2 := by
  refine ⟨?_, ?_⟩
  · intro m hm
    cases hturn : (server.clientTurn sock).1 with
    | none => simp [hturn, takenBy] at hm
    | some message =>
      rw [hturn, takenBy] at hm
      split_ifs at hm
      · rw [List.mem_singleton.mp hm]
        exact turn_ne_ping message sock hturn
      · cases hm
  intro sent hsends hpending
  rw [Delivers, if_pos hmem] at hpending
  cases sent with
  | nil =>
    rw [clientTurn_cutOff htail hpending]
    refine ⟨[], [], [], rfl, (List.append_nil _).symm, List.Forall₂.nil, ?_⟩
    simp [Delivers, ReplServer.drop]
  | cons m sent =>
    rw [frames, List.flatMap_cons, List.append_assoc] at hpending
    obtain ⟨left, hleft, hturn⟩ := clientTurn_sent (hsends m List.mem_cons_self) hpending
    have hafter : ∀ answers bytes, Delivers sock tail sent
        ((server.setArrivals sock left).write sock answers bytes) := by
      intro answers bytes
      refine (if_pos hmem).mpr ?_
      simpa [ReplServer.setArrivals, ReplServer.write, frames] using hleft
    rw [hturn]
    split_ifs with hping
    · refine ⟨[m], sent, [⟨sock, some ⟨sock, m.2, m.1⟩, ReplServer.pingText⟩], rfl, ?_, ?_,
        hafter _ _⟩
      · rw [writtenTo_write, if_pos rfl]
        rfl
      · exact List.Forall₂.cons ⟨rfl, by rw [if_pos hping]⟩ List.Forall₂.nil
    · rw [takenBy, if_pos rfl]
      exact ⟨[], sent, [], rfl, (List.append_nil _).symm, List.Forall₂.nil, hafter none []⟩

/-! ## All clients -/

theorem serves_turns (htail : CutOff tail) (ready : ℕ → Bool) (sockets : List ℕ)
    (server : ReplServer) :
    Serves handle sock tail (takenBy sock (ReplServer.clientTurns ready sockets server).1) server
      (ReplServer.clientTurns ready sockets server).2 := by
  induction sockets generalizing server with
  | nil => exact serves_of_same Iff.rfl rfl rfl
  | cons socket rest ih =>
    rw [ReplServer.clientTurns]
    split_ifs with hskip
    · exact ih server
    have hturn : Serves handle sock tail (takenBy sock (server.clientTurn socket).1) server
        (server.clientTurn socket).2 := by
      by_cases hsocket : socket = sock
      · subst hsocket
        exact serves_turn_own htail (by
          by_contra hout
          exact hskip (Or.inl hout))
      · exact serves_turn_other hsocket
    generalize server.clientTurn socket = turn at hturn
    cases turn with
    | mk message next =>
      cases message with
      | some message => exact hturn
      | none => exact hturn.trans (ih next)

theorem serves_accept {socket : ℕ} (hne : socket ≠ sock) (arrivals : Arrivals) :
    Serves handle sock tail [] server (server.acceptClient socket arrivals) := by
  have harrivals := Function.update_of_ne hne.symm arrivals server.arrivals
  rw [ReplServer.acceptClient]
  split_ifs
  · refine serves_of_same ?_ harrivals ?_
    · simp [ReplServer.write, ReplServer.setArrivals, List.mem_orderedInsert,
        List.mem_erase_of_ne hne.symm, hne.symm]
    · refine (writtenTo_write _ _ _).trans ?_
      rw [if_neg hne, List.append_nil]
      rfl
  · refine serves_of_same Iff.rfl harrivals ?_
    rw [writtenTo_write, if_neg hne, List.append_nil]
    refine (writtenTo_write _ _ _).trans ?_
    rw [if_neg hne, List.append_nil]
    rfl

/-- The message that was taken is answered with the result of the host. -/
theorem Serves.answer {message : ReplServerMessage} (carbon : σ)
    (h : Serves handle sock tail (takenBy sock (some message)) before after) :
    Serves handle sock tail [] before
      (after.sendResult message (handle carbon message.payload).1) := by
  by_cases hsocket : message.socket = sock
  · rw [takenBy, if_pos hsocket] at h
    refine ⟨List.forall_mem_nil _, ?_⟩
    intro sent hsends hpending
    obtain ⟨done, rest, writes, rfl, hwritten, hanswers, hafter⟩ := h.2 sent hsends hpending
    refine ⟨done ++ [(message.type, message.payload)], rest, writes ++ [⟨message.socket,
      some message, frame EVAL_RESULT (handle carbon message.payload).1⟩], by simp, ?_, ?_, hafter⟩
    · rw [ReplServer.sendResult, writtenTo_write, if_pos hsocket, hwritten, List.append_assoc]
    · refine List.rel_append hanswers (List.Forall₂.cons ⟨by rw [← hsocket], ?_⟩ .nil)
      rw [if_neg (h.1 _ List.mem_cons_self)]
      exact ⟨carbon, rfl⟩
  · rw [takenBy, if_neg hsocket] at h
    refine h.trans (serves_of_same Iff.rfl rfl ?_)
    rw [ReplServer.sendResult, writtenTo_write, if_neg hsocket, List.append_nil]

theorem serves_accepted (htail : CutOff tail) (serving : ReplServer × σ) (poll : Poll) :
    Serves handle sock tail [] (serving.1.accept poll) (serveStep handle tick serving poll).1 := by
  have hgot : Serves handle sock tail _ (serving.1.accept poll) (serving.1.getMsg poll).2 :=
    serves_turns htail poll.ready serving.1.clientSockets (serving.1.accept poll)
  rw [serveStep]
  rw [← ReplServer.getMsg] at hgot
  generalize serving.1.getMsg poll = got at hgot
  cases got with
  | mk message next =>
    cases message with
    | none => exact hgot
    | some message => exact hgot.answer serving.2

theorem serves_step (htail : CutOff tail) (serving : ReplServer × σ) {poll : Poll}
    (hpoll : ∀ arrivals, poll.connecting ≠ some (sock, arrivals)) :
    Serves handle sock tail [] serving.1 (serveStep handle tick serving poll).1 := by
  have haccept : Serves handle sock tail [] serving.1 (serving.1.accept poll) := by
    rw [ReplServer.accept]
    cases hconnecting : poll.connecting with
    | none => exact serves_of_same Iff.rfl rfl rfl
    | some new =>
      have hne : new.1 ≠ sock := by
        intro heq
        exact hpoll new.2 (by rw [hconnecting, ← heq])
      exact serves_accept hne new.2
  exact haccept.trans (serves_accepted htail serving poll)

theorem serves_loop (htail : CutOff tail) (polls : List Poll) (serving : ReplServer × σ)
    (hpolls : ∀ poll ∈ polls, ∀ arrivals, poll.connecting ≠ some (sock, arrivals)) :
    Serves handle sock tail [] serving.1 (serveLoop handle tick serving polls).1 := by
  induction polls generalizing serving with
  | nil => exact serves_of_same Iff.rfl rfl rfl
  | cons poll polls ih =>
    have hfirst : Serves handle sock tail [] serving.1 (serveStep handle tick serving poll).1 :=
      serves_step htail serving (hpolls poll List.mem_cons_self)
    exact hfirst.trans (ih _ fun poll hpoll => hpolls poll (List.mem_cons_of_mem _ hpoll))

/-- However the bytes of a connected client arrive, whatever the other clients send and whenever
they connect or leave: the server takes the messages of the client in the order in which they were
sent, none twice and none left out, and answers each once and in that order; of a message that a
lost connection cut off nothing is delivered, and a client is dropped only when all was taken.
SRCLINE: ReplServer.cpp:56-223, carbon/Main.cpp:213-241 -/
theorem serveLoop_answers (handle : σ → Text → Text × σ) (tick : σ → σ)
    (serving : ReplServer × σ) (polls : List Poll) {sock : ℕ} {sent : List (BitVec 32 × Text)}
    {tail : Text} (hmem : sock ∈ serving.1.clientSockets)
    (harrivals : (serving.1.arrivals sock).flatten = frames sent ++ tail)
    (hsends : ∀ m ∈ sent, Sends m) (htail : CutOff tail)
    (hpolls : ∀ poll ∈ polls, ∀ arrivals, poll.connecting ≠ some (sock, arrivals)) :
    AnswersInOrder handle sock tail sent serving.1 (serveLoop handle tick serving polls).1 := by
  have hserves : Serves handle sock tail [] serving.1 (serveLoop handle tick serving polls).1 :=
    serves_loop htail polls serving hpolls
  exact hserves.2 sent hsends ((if_pos hmem).mpr harrivals)

/-- A host that sends back what it is given. -/
def echo (passes : ℕ) (payload : Text) : Text × ℕ := (payload, passes + 1)

/-- Two clients that both send a form and a ping, cut in the header and in the text. -/
def twoClients : ReplServer :=
  ⟨[4, 5], fun _ => [[2, 0, 0], [0, 10, 0, 0, 0, 97], [98, 0, 0, 0, 0, 0, 0, 0, 0]], []⟩

/-- A poll in which all clients are readable. -/
def readable (connecting : Option (ℕ × Arrivals)) : Poll := ⟨connecting, fun _ => true, true⟩

theorem sends_of_short {m : BitVec 32 × Text} (hne : m.1 ≠ PING) (h : m.2.length < 2 ^ 31) :
    Sends m := ⟨h, fun hping => absurd hping hne⟩

theorem cutOff_nil : CutOff [] :=
  ⟨(EVAL, []), sends_of_short (by decide) (by decide), List.nil_prefix, by decide⟩

/-- INTERNAL: the server takes one message of one client in each pass. -/
theorem serveLoop_answers_two :
    AnswersInOrder echo 5 [] [(EVAL, [97, 98]), (PING, [])] twoClients
      (serveLoop echo id (twoClients, 0) [readable none, readable none, readable none]).1 := by
  refine serveLoop_answers echo id _ _ (by decide) (by decide) ?_ cutOff_nil (by simp [readable])
  simp [Sends, EVAL, PING]

/-! ## The welcome text -/

theorem eval_misframed {client : ReplClient} {s : Text} {c : UInt8} (hfour : s[4]? = some c)
    (hne : c ≠ 11) (h : client.isConnected = true → client.arrivals.flatten <+: s) :
    client.eval.1 = none ∧
      (client.eval.2.isConnected = true → client.eval.2.arrivals.flatten <+: s.drop 8) := by
  rw [ReplClient.eval]
  by_cases hconnected : client.isConnected = true
  · have hprefix := h hconnected
    rw [hconnected, if_neg (by simp)]
    by_cases hlong : 8 ≤ client.arrivals.flatten.length
    · obtain ⟨left, hread, hleft⟩ := readFully_ok 8 client.arrivals hlong
      have htake : client.arrivals.flatten.take 8 = s.take 8 := by
        obtain ⟨more, rfl⟩ := hprefix
        rw [List.take_append_of_le_length hlong]
      have htype : (ReplServerHeader.ofBytes (s.take 8)).type ≠ EVAL_RESULT := by
        have hdrop : (s.take 8).drop 4 = c :: ((s.take 8).drop 5) := by
          rw [List.drop_eq_getElem?_toList_append, List.getElem?_take_of_lt (by omega), hfour]
          rfl
        rw [ReplServerHeader.ofBytes, hdrop, Script.ofLittleEndian]
        intro heq
        have hnat := congrArg BitVec.toNat heq
        have hbyte : c.toNat ≠ 11 := fun hc => hne (UInt8.toNat_inj.mp hc)
        have hlt := c.toNat_lt
        have heleven : EVAL_RESULT.toNat = 11 := rfl
        rw [BitVec.toNat_ofNat, heleven] at hnat
        omega
      rw [hread, htake]
      dsimp only
      rw [if_pos htype]
      refine ⟨rfl, ?_⟩
      intro _
      obtain ⟨more, rfl⟩ := hprefix
      rw [hleft, List.drop_append_of_le_length hlong]
      exact List.prefix_append _ _
    · rw [readFully_none (by omega)]
      exact ⟨rfl, fun hfalse => by cases hfalse⟩
  · rw [if_pos (by simpa using hconnected)]
    exact ⟨rfl, fun hfalse => absurd hfalse hconnected⟩

/-- While the fifth byte of what is read as a header is that of no result, no call returns one. -/
theorem evals_misframed {n : ℕ} {client : ReplClient} {s : Text}
    (hbytes : ∀ i < n, ∃ c, s[8 * i + 4]? = some c ∧ c ≠ 11)
    (h : client.isConnected = true → client.arrivals.flatten <+: s) :
    ∀ result ∈ client.evals n, result = none := by
  induction n generalizing client s with
  | zero => exact List.forall_mem_nil _
  | succ n ih =>
    obtain ⟨c, hfour, hne⟩ := hbytes 0 (Nat.zero_lt_succ n)
    obtain ⟨hresult, hnext⟩ := eval_misframed hfour hne h
    rw [ReplClient.evals, List.forall_mem_cons]
    refine ⟨hresult, ih ?_ hnext⟩
    intro i hi
    obtain ⟨d, hd, hdne⟩ := hbytes (i + 1) (Nat.succ_lt_succ hi)
    refine ⟨d, ?_, hdne⟩
    rw [List.getElem?_drop, ← hd]
    congr 1
    omega

/-- A client that connects is greeted outside a frame. However the bytes arrive and whatever the
others do, its first four calls return nothing, although the server takes its messages in order
and answers each of them once: the calls take the welcome text for headers.
SRCLINE: ReplServer.cpp:44-103, ReplClient.cpp:36-93, carbon/Main.cpp:213-241 -/
theorem evals_greeted (handle : σ → Text → Text × σ) (tick : σ → σ) (serving : ReplServer × σ)
    (first : Poll) (polls : List Poll) {sock : ℕ} {arrivals : Arrivals}
    (sent : List (BitVec 32 × Text)) {tail : Text}
    (hroom : serving.1.clientSockets.length < 50)
    (hfirst : first.connecting = some (sock, arrivals))
    (harrivals : arrivals.flatten = frames sent ++ tail)
    (hsends : ∀ m ∈ sent, Sends m) (htail : CutOff tail)
    (hpolls : ∀ poll ∈ polls, ∀ arrivals, poll.connecting ≠ some (sock, arrivals)) :
    AnswersInOrder handle sock tail sent (serving.1.accept first)
      (serveLoop handle tick serving (first :: polls)).1 ∧
    ∀ client : ReplClient, client.arrivals.flatten <+:
        ((writtenTo sock (serveLoop handle tick serving (first :: polls)).1).drop
          (writtenTo sock serving.1).length).flatMap (·.bytes) →
      ∀ n ≤ 4, ∀ result ∈ client.evals n, result = none := by
  have hserves : Serves handle sock tail [] (serving.1.accept first)
      (serveLoop handle tick serving (first :: polls)).1 :=
    (serves_accepted htail serving first).trans (serves_loop htail polls _ hpolls)
  have haccept : serving.1.accept first = serving.1.acceptClient sock arrivals := by
    rw [ReplServer.accept, hfirst]
  have hroom : ((serving.1.setArrivals sock arrivals).write sock none
      ReplServer.pingText).clientSockets.length < 50 := hroom
  have hpending : Delivers sock tail sent (serving.1.accept first) := by
    rw [haccept, ReplServer.acceptClient, if_pos hroom]
    refine (if_pos ((List.mem_orderedInsert _).mpr (Or.inl rfl))).mpr ?_
    rw [← harrivals]
    exact congrArg List.flatten (Function.update_self _ _ _)
  have hwritten : writtenTo sock (serving.1.accept first) =
      writtenTo sock serving.1 ++ [⟨sock, none, ReplServer.pingText⟩] := by
    rw [haccept, ReplServer.acceptClient, if_pos hroom]
    refine (writtenTo_write _ _ _).trans ?_
    rw [if_pos rfl]
    rfl
  have hanswers := hserves.2 sent hsends hpending
  refine ⟨hanswers, ?_⟩
  intro client hclient n hn
  obtain ⟨done, rest, writes, -, hafter, -, -⟩ := hanswers
  rw [hafter, hwritten, List.append_assoc, List.drop_left, List.flatMap_append,
    List.flatMap_singleton] at hclient
  refine evals_misframed ?_ fun _ => hclient
  intro i hi
  have hlength : ReplServer.pingText.length = 29 := by with_unfolding_all decide
  have hbyte : ∀ i < 4, ∃ c, ReplServer.pingText[8 * i + 4]? = some c ∧ c ≠ 11 := by
    with_unfolding_all decide
  obtain ⟨c, hc, hne⟩ := hbyte i (by omega)
  have hwelcome : (ReplServer.pingText ++ writes.flatMap (·.bytes))[8 * i + 4]? = some c := by
    rw [List.getElem?_append_left (by omega), hc]
  exact ⟨c, hwelcome, hne⟩

/-- A third client that connects and sends a form. -/
def connecting : Poll := readable (some (6, [[2, 0, 0, 0, 10, 0], [0, 0, 97, 98]]))

/-- INTERNAL: what the third client is given for its calls. -/
theorem evals_greeted_third :
    AnswersInOrder echo 6 [] [(EVAL, [97, 98])] (twoClients.accept connecting)
      (serveLoop echo id (twoClients, 0) [connecting, readable none]).1 ∧
    ∀ result ∈ (ReplClient.mk true [ReplServer.pingText]).evals 4, result = none := by
  obtain ⟨hanswers, hresults⟩ := evals_greeted echo id (twoClients, 0) connecting [readable none]
    [(EVAL, [97, 98])] (by decide) rfl (by decide) (by simp [Sends, EVAL, PING]) cutOff_nil
    (by simp [readable])
  exact ⟨hanswers, hresults _ (by with_unfolding_all decide) 4 le_rfl⟩

/-! ## Result frames -/

/-- Results that are sent in frames come back, one for each call and in order, however they arrive
and whatever follows; a text is to be shorter than half of what its length can say.
SRCLINE: ReplServer.cpp:205-223, ReplClient.cpp:54-93 -/
theorem evals_replies (replies : List Text) {client : ReplClient} (more : Text)
    (hconnected : client.isConnected = true) (hlengths : ∀ reply ∈ replies, reply.length < 2 ^ 31)
    (h : client.arrivals.flatten = frames (replies.map fun reply => (EVAL_RESULT, reply)) ++ more) :
    client.evals replies.length = replies.map some := by
  induction replies generalizing client with
  | nil => rfl
  | cons reply replies ih =>
    rw [List.map_cons, frames, List.flatMap_cons, List.append_assoc] at h
    dsimp only at h
    obtain ⟨hsize, hlength⟩ := length_word (hlengths reply List.mem_cons_self)
    have hlong := length_frame EVAL_RESULT reply
    obtain ⟨left, hread, hleft⟩ := readFully_ok 8 client.arrivals
      (by rw [h, List.length_append]; omega)
    rw [h, drop_frame] at hleft
    obtain ⟨rest, hpayload, hrest⟩ := readFully_ok reply.length left
      (by rw [hleft, List.length_append]; omega)
    rw [hleft, List.drop_left] at hrest
    have heval : client.eval = (some reply, ⟨true, rest⟩) := by
      rw [ReplClient.eval, hconnected, if_neg (by simp), hread, h]
      dsimp only
      rw [ofBytes_frame, if_neg (by simp)]
      dsimp only
      rw [hlength, Int.toNat_natCast, hpayload, hleft, List.take_left]
      dsimp only
      rw [hsize, Nat.sub_self, List.replicate_zero, List.append_nil]
    rw [List.length_cons, ReplClient.evals, heval, List.map_cons]
    exact congrArg (some reply :: ·)
      (ih rfl (fun r hr => hlengths r (List.mem_cons_of_mem _ hr)) hrest)

/-- The answers to forms are frames of results. -/
theorem frames_of_answers {done : List (BitVec 32 × Text)} {writes : List Write}
    (hforms : ∀ m ∈ done, m.1 ≠ PING ∧ ∀ carbon, (handle carbon m.2).1.length < 2 ^ 31)
    (h : List.Forall₂ (RepliesTo handle sock) done writes) : ∃ replies : List Text,
      List.Forall₂ (fun m reply => ∃ carbon, (handle carbon m.2).1 = reply) done replies ∧
      writes.flatMap (·.bytes) = frames (replies.map fun reply => (EVAL_RESULT, reply)) ∧
      ∀ reply ∈ replies, reply.length < 2 ^ 31 := by
  induction h with
  | nil => exact ⟨[], .nil, rfl, List.forall_mem_nil _⟩
  | cons hwrite _ ih =>
    obtain ⟨⟨hne, hlength⟩, hdone⟩ := List.forall_mem_cons.mp hforms
    obtain ⟨replies, hresults, hframes, hlengths⟩ := ih hdone
    have hresult := hwrite.2
    rw [if_neg hne] at hresult
    obtain ⟨carbon, hbytes⟩ := hresult
    refine ⟨_ :: replies, .cons ⟨carbon, rfl⟩ hresults, ?_,
      List.forall_mem_cons.mpr ⟨hlength carbon, hlengths⟩⟩
    rw [List.flatMap_cons, hbytes, hframes]
    rfl

/-- To a client that has passed over the welcome text and asks for results only, its calls return
what the host gave for its forms, each once and in order, whatever the others do.
SRCLINE: ReplServer.cpp:56-223, ReplClient.cpp:36-93, carbon/Main.cpp:213-241 -/
theorem evals_served (handle : σ → Text → Text × σ) (tick : σ → σ) (serving : ReplServer × σ)
    (polls : List Poll) {sock : ℕ} {sent : List (BitVec 32 × Text)} {tail : Text}
    (hmem : sock ∈ serving.1.clientSockets)
    (harrivals : (serving.1.arrivals sock).flatten = frames sent ++ tail)
    (hsends : ∀ m ∈ sent, Sends m) (htail : CutOff tail)
    (hforms : ∀ m ∈ sent, m.1 ≠ PING ∧ ∀ carbon, (handle carbon m.2).1.length < 2 ^ 31)
    (hpolls : ∀ poll ∈ polls, ∀ arrivals, poll.connecting ≠ some (sock, arrivals))
    {client : ReplClient} (hconnected : client.isConnected = true)
    (hclient : client.arrivals.flatten =
      ((writtenTo sock (serveLoop handle tick serving polls).1).drop
        (writtenTo sock serving.1).length).flatMap (·.bytes)) :
    ∃ done rest replies, sent = done ++ rest ∧
      Delivers sock tail rest (serveLoop handle tick serving polls).1 ∧
      List.Forall₂ (fun m reply => ∃ carbon, (handle carbon m.2).1 = reply) done replies ∧
      client.evals replies.length = replies.map some := by
  have hserves : Serves handle sock tail [] serving.1 (serveLoop handle tick serving polls).1 :=
    serves_loop htail polls serving hpolls
  obtain ⟨done, rest, writes, rfl, hafter, hanswers, hrest⟩ :=
    hserves.2 sent hsends ((if_pos hmem).mpr harrivals)
  obtain ⟨replies, hresults, hframes, hlengths⟩ :=
    frames_of_answers (fun m hm => hforms m (List.mem_append_left _ hm)) hanswers
  refine ⟨done, rest, replies, rfl, hrest, hresults, evals_replies replies [] hconnected hlengths ?_⟩
  rw [hclient, hafter, List.drop_left, hframes, List.append_nil]

/-- INTERNAL: a form that arrives in three portions, and its result in two. -/
theorem evals_served_form :
    ∃ done rest replies, [(EVAL, [97, 98])] = done ++ rest ∧
      Delivers 5 [] rest (serveLoop echo id (⟨[5], fun _ => [[2, 0, 0], [0, 10, 0, 0, 0, 97], [98]],
        []⟩, 0) [readable none]).1 ∧
      List.Forall₂ (fun m reply => ∃ passes, (echo passes m.2).1 = reply) done replies ∧
      (ReplClient.mk true [[2, 0], [0, 0, 11, 0, 0, 0, 97, 98]]).evals replies.length =
        replies.map some :=
  evals_served echo id _ [readable none] (by decide) (by decide) (by simp [Sends, EVAL, PING])
    cutOff_nil (by simp [echo, EVAL, PING]) (by simp [readable]) rfl (by decide)

end Soot.Analysis
