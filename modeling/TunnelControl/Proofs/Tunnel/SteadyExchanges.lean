import TunnelControl.Device.Channel
import TunnelControl.Proofs.Netlink.SteadyAnswers
import TunnelControl.Proofs.Tunnel.Requests

namespace TunnelControl

open Netlink

variable {σ α β : Type} {model : Bytes → List Message} {size : Nat}

/-! Programs with one result. -/

section

variable {ε τ γ δ : Type} {before middle after : τ → Prop}

/-- From every state of the first kind the program comes to this result; with a value it comes to a
state of the second kind. -/
def Yields (before after : τ → Prop) (program : ExceptT ε (StateM τ) γ)
    (result : Except ε γ) : Prop :=
  ∀ state, before state → ∃ last, program.run state = (result, last) ∧
    ∀ value, result = .ok value → after last

theorem Yields.throw (error : ε) :
    Yields before after (throw error : ExceptT ε (StateM τ) γ) (.error error) :=
  fun state _ => ⟨state, rfl, nofun⟩

theorem Yields.pure (value : γ) :
    Yields before before (Pure.pure value : ExceptT ε (StateM τ) γ) (.ok value) :=
  fun state h => ⟨state, rfl, fun _ _ => h⟩

theorem Yields.bind {first : ExceptT ε (StateM τ) γ} {next : γ → ExceptT ε (StateM τ) δ}
    {result : Except ε γ} {results : γ → Except ε δ} (hfirst : Yields before middle first result)
    (hnext : ∀ value, Yields middle after (next value) (results value)) :
    Yields before after (first >>= next) (result >>= results) := by
  intro state h
  obtain ⟨reached, hrun, hreached⟩ := hfirst state h
  cases result with
  | error error => exact ⟨reached, Exchange.run_bind_of_error hrun, nofun⟩
  | ok value =>
      obtain ⟨last, hrest, hlast⟩ := hnext value reached (hreached value rfl)
      exact ⟨last, (Exchange.run_bind_of_ok hrun).trans hrest, hlast⟩

theorem Yields.mapM {next : γ → ExceptT ε (StateM τ) δ} {results : γ → Except ε δ}
    (h : ∀ value, Yields before before (next value) (results value)) (values : List γ) :
    Yields before before (values.mapM next) (values.mapM results) := by
  induction values with
  | nil =>
      rw [List.mapM_nil, List.mapM_nil]
      exact .pure []
  | cons value values ih =>
      rw [List.mapM_cons, List.mapM_cons]
      exact (h value).bind fun _ => ih.bind fun _ => .pure _

end

/-! Requests. -/

namespace Netlink.Draft

theorem finish_error_of_stamped {draft : Draft} {socket : Socket} {error : Error}
    (h : (socket.stamped draft).finish = .error error) : draft.finish = .error error := by
  rw [finish, Socket.oversized_stamped, Socket.size_stamped] at h
  rw [finish]
  cases hoversized : draft.oversized with
  | some length =>
      rw [hoversized] at h
      exact h
  | none =>
      rw [hoversized] at h
      dsimp only at h ⊢
      split at h
      · cases h
      · rename_i hsize
        rw [if_neg hsize]
        exact h

end Netlink.Draft

namespace Request

/-- What comes of a request whose answers are the model's. -/
def conclude (request : Request) (model : Bytes → List Message) (listener : Listener σ α)
    (state : σ) : Except Error α := do
  let _ ← request.draft.finish
  listener.conclude state (model (request.bytes 0 0))

theorem unmarked_bytes (request : Request) (sequence port : UInt32) :
    unmarked (request.bytes sequence port) = request.bytes 0 0 :=
  unmarked_bytes_append _ _

theorem eq_bytes_of_stamped {request : Request} {socket : Socket} {frame : Bytes}
    (h : (socket.stamped request.draft).finish = .ok frame) :
    frame = request.bytes socket.sequence socket.port := by
  have hwritable := (Draft.finish_eq_ok_iff _).mp ⟨frame, h⟩
  rw [Socket.size_stamped] at hwritable
  have hfinish := Request.finish_eq_bytes (wellFormed_of_finish h).fits hwritable.2
    socket.sequence socket.port
  exact Except.ok.inj (h.symm.trans hfinish)

end Request

namespace Netlink.Socket

/-- The exchange comes to this result on every socket that serves the model, which then still
serves it. -/
abbrev YieldsOn (model : Bytes → List Message) (size : Nat) (program : Exchange α)
    (result : Except Error α) : Prop :=
  Yields (Serves model size) (Serves model size) program result

theorem yields_lift (result : Except Error α) :
    YieldsOn model size (liftM result : Exchange α) result :=
  fun socket h => ⟨socket, Exchange.run_lift result socket, fun _ _ => h⟩

theorem yields_ask {listener : Listener σ α} (hlistener : listener.Steady) (request : Request)
    (state : σ) :
    YieldsOn model size (ask request.draft listener state)
      (request.conclude model listener state) := by
  intro socket h
  obtain ⟨sent, heard, outcome, after, hasked⟩ :=
    exists_asked request.draft listener state socket
  refine ⟨after, ?_⟩
  rw [hasked.run, Request.conclude]
  cases hasked with
  | unwritten hfinish =>
      rw [Draft.finish_error_of_stamped hfinish]
      exact ⟨rfl, nofun⟩
  | unsent hframe hsend => exact absurd h.sends_headD hsend
  | @sent frame heard rest outcome hframe hsend hsupplied hhears =>
      obtain ⟨written, hwritten⟩ := (finish_stamped_eq_ok_iff socket request.draft).mp ⟨_, hframe⟩
      obtain ⟨header, body, htake, hnumber, -⟩ :=
        Draft.header_of_finish_numbered request.headed hframe
      rw [h.bufferSize] at hhears
      obtain ⟨houtcome, hleft⟩ := h.outcome_eq hlistener htake hnumber hsupplied hhears
      rw [Request.eq_bytes_of_stamped hframe, Request.unmarked_bytes] at houtcome
      rw [hwritten]
      refine ⟨congrArg (·, _) houtcome, fun value hvalue => ?_⟩
      obtain ⟨left, hstream, hstale⟩ := hleft value (houtcome.trans hvalue)
      refine ⟨h.bufferSize, fun errno hmem => h.sends errno (List.mem_of_mem_tail hmem), h.answers,
        left, hstream, fun message hmem => ?_⟩
      -- what is left has the number that was used, so it is stale even when the numbers wrap
      have hnext : socket.sequence ≠ socket.sequence + 1 := by simp
      exact (hstale message hmem).symm ▸ hnext

theorem yields_resolve (name : String) :
    YieldsOn model size (resolve name)
      ((Request.lookup name).conclude model (FamilyInfo.listener name) ()) :=
  yields_ask (FamilyInfo.listener_steady name) (.lookup name) ()

def someReplies (replies : List Bytes) : Except Error (List Bytes) :=
  if replies = [] then .error (.ofStatus Errno.noDevice) else .ok replies

theorem yields_deviceReplies (family : FamilyInfo) (name : String) :
    YieldsOn model size (deviceReplies family name)
      ((Request.getDevice family.id name).conclude model collection [] >>= someReplies) := by
  have hdump : YieldsOn model size (dump (Request.getDevice family.id name).draft)
      ((Request.getDevice family.id name).conclude model collection []) :=
    yields_ask collection_steady (.getDevice family.id name) []
  refine Yields.bind hdump fun replies => ?_
  rw [someReplies]
  split
  · exact Yields.throw _
  · exact Yields.pure replies

theorem yields_device (family : FamilyInfo) (name : String) :
    YieldsOn model size (device family name)
      ((Request.getDevice family.id name).conclude model collection [] >>= someReplies >>=
        Snapshot.ofReplies) := by
  refine (yields_deviceReplies family name).bind fun replies => ?_
  have hnote : YieldsOn model size
      (modify fun socket => { socket with skipped := socket.skipped ++ Snapshot.skipped {} replies })
      (.ok ()) :=
    fun socket h => ⟨_, rfl, fun _ _ => ⟨h.bufferSize, h.sends, h.answers, h.queued⟩⟩
  exact hnote.bind fun _ => yields_lift (Snapshot.ofReplies replies)

theorem yields_tunnelLinks :
    YieldsOn model size tunnelLinks (do
      let payloads ← Request.listLinks.conclude model collection []
      let links ← payloads.mapM Link.ofPayload
      return links.filter Link.isTunnel) := by
  have hdump : YieldsOn model size (dump Link.enumeration)
      (Request.listLinks.conclude model collection []) :=
    yields_ask collection_steady .listLinks []
  have hread : ∀ payloads : List Bytes,
      YieldsOn model size (payloads.mapM fun payload => liftM (Link.ofPayload payload))
        (payloads.mapM Link.ofPayload) :=
    Yields.mapM fun payload => yields_lift (Link.ofPayload payload)
  exact hdump.bind fun payloads => (hread payloads).bind fun links => Yields.pure _

end Netlink.Socket

end TunnelControl
