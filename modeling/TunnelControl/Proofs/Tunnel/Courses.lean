import TunnelControl.Proofs.Tunnel.Following
import TunnelControl.Proofs.Tunnel.PeerAddition
import TunnelControl.Proofs.Tunnel.PeerRemoval

/-!
The courses of operations. Every operation on tunnels goes through stages in a fixed order, and the
first stage that fails ends it with the failure that the stage stands for.
-/

namespace TunnelControl.Tunnel

open Netlink

variable {settings : Settings} {α : Type} {socket : Option Socket} {host : Host}

/-! Changes. -/

/-- One stage for each part of a change. -/
def applyingParts (family : FamilyInfo) (name : String) {change : DeviceChange}
    (parts : List DeviceChange) (hparts : ∀ part ∈ parts, part ∈ change.requests) : List Stage :=
  parts.pmap (fun part hpart => .asking (.configuring family name change part hpart)) hparts

def applying (family : FamilyInfo) (name : String) (change : DeviceChange) : List Stage :=
  applyingParts family name change.requests fun _ hpart => hpart

theorem ignoresRecord_applyRequests (family : FamilyInfo) (name : String) {change : DeviceChange}
    {parts : List DeviceChange} (hparts : ∀ part ∈ parts, part ∈ change.requests) :
    Socket.IgnoresRecord (Socket.applyRequests family name parts) := by
  induction parts with
  | nil => exact Socket.ignoresRecord_pure ()
  | cons part parts ih =>
      obtain ⟨hpart, hrest⟩ := List.forall_mem_cons.mp hparts
      exact (Socket.ignoresRecord_request (.setDevice family.id name change part hpart)).bind
        fun _ => ih hrest

/-- The requests of a change are one exchange, but each of them is a stage of its own. -/
theorem follows_applyRequests (family : FamilyInfo) (name : String) {change : DeviceChange}
    {parts : List DeviceChange} (hparts : ∀ part ∈ parts, part ∈ change.requests)
    (current : Socket) :
    Follows settings ((SocketOperation.exchange (.configureDevice name)
        (Socket.applyRequests family name parts)).run current)
      (some current.cleared) host (applyingParts family name parts hparts) Continues := by
  induction parts generalizing current host with
  | nil =>
      have hrun : (Socket.applyRequests family name []).run current.cleared =
          (.ok (), current.cleared) := rfl
      have hnoted : host.noteExchange current.cleared = host := by
        simp [Host.noteExchange, Socket.cleared]
      have hnothing := MakesOn.run_exchange_of_ok (.configureDevice name) hrun host
      rw [hnoted] at hnothing
      exact .passed hnothing rfl .nil
  | cons part parts ih =>
      obtain ⟨hpart, hrest⟩ := List.forall_mem_cons.mp hparts
      exact follows_exchange_bind (.configuring family name change part hpart) current
        (fun _ => rfl) (fun _ => ignoresRecord_applyRequests family name hrest)
        fun _ next _ => ih hrest next

/-! Operations on one device. -/

/-- The stages that find a device. -/
def finding (settings : Settings) (family : FamilyInfo) (name : String) : List Stage :=
  [.opening .generic, .asking (.resolving settings.tunnelFamily), .asking (.fetching family name)]

variable (settings) in
theorem exists_follows_locate (name : String) (socket : Option Socket) (host : Host) :
    ∃ family, Follows settings (locate settings name) socket host (finding settings family name)
      fun found next => found.1.1 = family ∧ Continues found next := by
  refine (follows_openSocket .generic).exists_bind
    (fun family => [.asking (.resolving settings.tunnelFamily), .asking (.fetching family name)])
    ⟨0, 0⟩ ?_
  rintro opened _ middle - rfl
  refine (follows_exchange (.resolving settings.tunnelFamily) opened fun _ _ _ => rfl).exists_bind
    (fun family => [.asking (.fetching family name)]) ⟨0, 0⟩ ?_
  rintro ⟨family, answered⟩ _ last - rfl
  refine ⟨family, (follows_exchange (.fetching family name) answered fun _ _ _ => rfl).bind [] ?_⟩
  rintro ⟨snapshot, described⟩ _ after - rfl
  exact .pure _ ⟨rfl, rfl⟩

theorem exists_follows_withFamily {ι : Type} {name : String}
    {next : FamilyInfo → Snapshot → SocketOperation α} (back : FamilyInfo → ι → List Stage)
    (other : ι)
    (hnext : ∀ family snapshot current middle,
      ∃ i, Follows settings ((next family snapshot).run current) (some current.cleared) middle
        (back family i) Continues) :
    ∃ family i, Follows settings
      (withFamily settings fun family => fetch family name >>= next family) socket host
      (finding settings family name ++ back family i) fun _ _ => True := by
  obtain ⟨family, hlocate⟩ := exists_follows_locate settings name socket host
  rw [withFamily_fetch_eq]
  refine ⟨family, hlocate.exists_bind (back family) other ?_⟩
  rintro ⟨⟨_, snapshot⟩, current⟩ _ middle - ⟨rfl, rfl⟩
  obtain ⟨i, h⟩ := hnext _ snapshot current middle
  exact ⟨i, h.run'⟩

theorem exists_follows_fetch (name : String) (f : Snapshot → α) (host : Host) :
    ∃ family, Follows settings
      (withFamily settings fun family => fetch family name >>= fun snapshot => pure (f snapshot))
      socket host (finding settings family name) fun _ _ => True := by
  have hfound : ∃ (family : FamilyInfo) (_ : Unit), Follows settings
      (withFamily settings fun family => fetch family name >>= fun snapshot => pure (f snapshot))
      socket host (finding settings family name ++ []) fun _ _ => True :=
    exists_follows_withFamily (fun _ _ => []) () fun _ snapshot _ _ =>
      ⟨(), .pure (f snapshot, _) rfl⟩
  obtain ⟨family, -, h⟩ := hfound
  exact ⟨family, h⟩

theorem follows_configure (family : FamilyInfo) (name : String) (change : DeviceChange)
    (current : Socket) (report : α) :
    Follows settings ((configure family name change >>= fun _ => pure report).run current)
      (some current.cleared) host (applying family name change) Continues :=
  (follows_applyRequests family name (fun _ hpart => hpart) current).map fun _ => report

theorem exists_run_drawPrivateKey (host : Host) :
    ∃ key, Host.drawPrivateKey.run host =
      (.ok key, { host with entropy := host.entropy.drop 32 }) := ⟨_, rfl⟩

theorem exists_run_drawSharedKey (host : Host) :
    ∃ key, Host.drawSharedKey.run host =
      (.ok key, { host with entropy := host.entropy.drop 32 }) := ⟨_, rfl⟩

theorem exists_follows_create [Base64.Codec] [Curve.Product] (name : String) (port : UInt16)
    (host : Host) :
    ∃ (family : FamilyInfo) (key : Key), Follows settings (create settings name port) socket host
      ([.opening .route, .asking (.adding name)] ++ (finding settings family name ++
        applying family name { privateKey := some key, listenPort := some port }))
      fun _ _ => True := by
  have hadded : Follows settings (SocketOperation.onNewSocket .route settings
      (SocketOperation.exchange (.addDevice name) (Socket.addLink name))) socket host
      [.opening .route, .asking (.adding name)] fun _ _ => True := by
    apply (follows_openSocket .route).bind [.asking (.adding name)]
    rintro opened _ middle - rfl
    exact (follows_exchange (.adding name) opened fun _ _ _ => rfl).run'
  have hcreated : ∃ chosen : FamilyInfo × Key, Follows settings (create settings name port) socket
      host ([.opening .route, .asking (.adding name)] ++ (finding settings chosen.1 name ++
        applying chosen.1 name { privateKey := some chosen.2, listenPort := some port }))
      fun _ _ => True := by
    refine hadded.exists_bind (fun chosen : FamilyInfo × Key =>
      finding settings chosen.1 name ++
        applying chosen.1 name { privateKey := some chosen.2, listenPort := some port })
      ⟨⟨0, 0⟩, Octets.zero 32⟩ ?_
    intro _ next middle _ _
    rw [Prod.exists]
    refine exists_follows_withFamily (fun family key =>
      applying family name { privateKey := some key, listenPort := some port })
      (Octets.zero 32) ?_
    intro family snapshot current found
    obtain ⟨key, hkey⟩ := exists_run_drawPrivateKey found
    exact ⟨key, .of_lift hkey (.drawing 32 .nil)
      (follows_configure family name _ current _)⟩
  obtain ⟨⟨family, key⟩, h⟩ := hcreated
  exact ⟨family, key, h⟩

theorem exists_follows_addPeer [Base64.Codec] [Curve.Product] (name : String)
    (allowedIps : List String) (keepalive : UInt16) (host : Host) :
    ∃ family peer, Follows settings (addPeer settings name allowedIps keepalive) socket host
      (finding settings family name ++ applying family name { peers := [peer] })
      fun _ _ => True := by
  refine exists_follows_withFamily
    (fun family peer => applying family name { peers := [peer] })
    { publicKey := Octets.zero 32 } ?_
  intro family snapshot current middle
  obtain ⟨privateKey, hprivate⟩ := exists_run_drawPrivateKey middle
  obtain ⟨presharedKey, hshared⟩ :=
    exists_run_drawSharedKey { middle with entropy := middle.entropy.drop 32 }
  exact ⟨_, .of_lift hprivate (.drawing 32 .nil)
    (.of_lift hshared (.drawing 32 .nil)
      (.of_lift (run_readAllowed name allowedIps _) (.warning _ .nil)
        (follows_configure family name _ current _)))⟩

theorem exists_follows_deletePeer [Base64.Codec] (name text : String) (socket : Option Socket)
    (host : Host) :
    (∃ family publicKey, Follows settings (deletePeer settings name text) socket host
        (finding settings family name ++
          applying family name { peers := [{ publicKey, remove := true }] }) fun _ _ => True) ∨
      ∃ family next after,
        (deletePeer settings name text).run host = (.error (.peerNotFound name text), after) ∧
        ¬ HasPeer settings name text host ∧
        PassesAll settings socket host (finding settings family name) next after := by
  obtain ⟨family, hlocate⟩ := exists_follows_locate settings name socket host
  rcases hrun : (locate settings name).run host with
    ⟨failure | ⟨⟨found, snapshot⟩, current⟩, middle⟩
  · have hstops := hlocate.stops_of_run hrun
    exact .inl ⟨family, Octets.zero 32,
      .stopped (run_deletePeer_of_error hrun) (hstops.append_right _)⟩
  · obtain ⟨next, ⟨rfl, rfl⟩, hpasses⟩ := hlocate.passes_of_run hrun
    cases hpeer : snapshot.findPeer text with
    | none =>
        exact .inr ⟨found, _, middle, run_deletePeer_of_none hrun hpeer,
          not_hasPeer_of_none hrun hpeer, hpasses⟩
    | some peer =>
        have happlied : Follows settings ((configure found name
            { peers := [{ publicKey := peer.publicKey, remove := true }] }).run' current)
            (some current.cleared) middle (applying found name
              { peers := [{ publicKey := peer.publicKey, remove := true }] }) fun _ _ => True :=
          (follows_applyRequests found name (fun _ hpart => hpart) current).run'
        refine .inl ⟨found, peer.publicKey, happlied.after hpasses ?_⟩
        rw [deletePeer, withFamily_fetch_eq, Exchange.run_bind_of_ok hrun]
        simp only [hpeer]
        rfl

/-! Operations on the links. -/

def listing : List Stage :=
  [.opening .route, .asking .listing]

theorem follows_names : Follows settings (names settings) socket host listing fun _ _ => True := by
  apply (follows_openSocket .route).bind [.asking .listing]
  rintro opened _ middle - rfl
  exact ((follows_exchange .listing opened fun _ _ _ => rfl).map fun links =>
    links.filterMap Link.name).run'

def describing (settings : Settings) (family : FamilyInfo) (names : List String) : List Stage :=
  if names = [] then []
  else [.opening .generic, .asking (.resolving settings.tunnelFamily)] ++
    names.map fun name => .asking (.fetching family name)

theorem follows_mapM_fetch (family : FamilyInfo) (names : List String)
    (f : String → Snapshot → α) (current : Socket) :
    Follows settings
      ((names.mapM fun name => fetch family name >>= fun snapshot =>
        (pure (f name snapshot) : SocketOperation α)).run current)
      (some current.cleared) host (names.map fun name => .asking (.fetching family name))
      Continues := by
  induction names generalizing current host with
  | nil => exact .pure _ rfl
  | cons name names ih =>
      rw [List.mapM_cons]
      refine (((follows_exchange (.fetching family name) current fun _ _ _ => rfl).map (f name)).bind
        (names.map fun name => .asking (.fetching family name)) ?_)
      rintro ⟨report, answered⟩ _ middle - rfl
      exact (ih answered).map fun reports => report :: reports

theorem exists_follows_describing (names : List String) (f : String → Snapshot → α)
    (socket : Option Socket) (host : Host) :
    ∃ family, Follows settings
      (if names = [] then pure [] else withFamily settings fun family =>
        names.mapM fun name => fetch family name >>= fun snapshot => pure (f name snapshot))
      socket host (describing settings family names) fun _ _ => True := by
  by_cases hnames : names = []
  · refine ⟨⟨0, 0⟩, ?_⟩
    rw [if_pos hnames, describing, if_pos hnames]
    exact .pure [] trivial
  · simp only [if_neg hnames, describing]
    refine (follows_openSocket .generic).exists_bind
      (fun family => .asking (.resolving settings.tunnelFamily) ::
        names.map fun name => .asking (.fetching family name)) ⟨0, 0⟩ ?_
    rintro opened _ middle - rfl
    refine Exists.imp (fun _ => Follows.run') ?_
    refine (follows_exchange (.resolving settings.tunnelFamily) opened fun _ _ _ => rfl).exists_bind
      (fun family => names.map fun name => .asking (.fetching family name)) ⟨0, 0⟩ ?_
    rintro ⟨family, answered⟩ _ last - rfl
    exact ⟨family, follows_mapM_fetch family names f answered⟩

def Gives {ε : Type} (outcome : Except ε α) (value : α) : Prop :=
  ∀ given, outcome = .ok given → given = value

theorem exists_gives {ε : Type} (outcome : Except ε α) (other : α) :
    ∃ value, Gives outcome value := by
  cases outcome with
  | error error => exact ⟨other, nofun⟩
  | ok value => exact ⟨value, fun given hgiven => (Except.ok.inj hgiven).symm⟩

theorem exists_follows_describeAll [Base64.Codec] (socket : Option Socket) (host : Host) :
    ∃ family names, Gives ((Tunnel.names settings).run host).1 names ∧
      Follows settings (describeAll settings) socket host
        (listing ++ describing settings family names) fun _ _ => True := by
  obtain ⟨names, hnames⟩ := exists_gives ((Tunnel.names settings).run host).1 []
  have hdescribed : ∃ family, Follows settings (describeAll settings) socket host
      (listing ++ describing settings family names) fun _ _ => True := by
    refine follows_names.exists_bind (fun family => describing settings family names)
      ⟨0, 0⟩ ?_
    rintro found next middle hrun -
    obtain rfl := hnames found (congrArg Prod.fst hrun)
    exact exists_follows_describing found DeviceReport.ofSnapshot next middle
  obtain ⟨family, h⟩ := hdescribed
  exact ⟨family, names, hnames, h⟩

theorem deletionFailure_eq {name : String} {index : UInt32} {socket after : Socket} {error : Error}
    (h : (Socket.removeLink index).run socket = (.error error, after)) :
    deletionFailure name error = (Errand.removing name index).failure error := by
  have hfound := Error.isNotFound_iff (Socket.isFraming_or_isReply (congrArg Prod.fst h))
  simp only [deletionFailure, Errand.failure, hfound]

theorem exists_follows_delete (name : String) (socket : Option Socket) (host : Host) :
    ∃ index, Gives ((Host.indexOf name).run host).1 index ∧
      Follows settings (delete settings name) socket host
        [.indexing name, .opening .route, .asking (.removing name index)] fun _ _ => True := by
  obtain ⟨index, hindex⟩ := exists_gives ((Host.indexOf name).run host).1 0
  refine ⟨index, hindex, (follows_indexOf name).bind
    [.opening .route, .asking (.removing name index)] ?_⟩
  rintro found next middle hrun -
  obtain rfl := hindex found (congrArg Prod.fst hrun)
  apply (follows_openSocket .route).bind [.asking (.removing name found)]
  rintro opened _ last - rfl
  exact (follows_exchange (.removing name found) opened fun _ _ => deletionFailure_eq).run'

/-! All operations. -/

inductive Job where
  | describe (name : String)
  | peers (name : String)
  | names
  | describeAll
  | create (name : String) (port : UInt16)
  | delete (name : String)
  | addPeer (name : String) (allowedIps : List String) (keepalive : UInt16)
  | deletePeer (name publicKey : String)

namespace Job

def Result : Job → Type
  | describe _ | create _ _ => DeviceReport
  | peers _ => List PeerReport
  | names => List String
  | describeAll => List DeviceReport
  | addPeer _ _ _ => PeerReport
  | delete _ | deletePeer _ _ => Unit

def operation [Base64.Codec] [Curve.Product] (settings : Settings) :
    (job : Job) → Operation job.Result
  | describe name => Tunnel.describe settings name
  | peers name => Tunnel.peers settings name
  | names => Tunnel.names settings
  | describeAll => Tunnel.describeAll settings
  | create name port => Tunnel.create settings name port
  | delete name => Tunnel.delete settings name
  | addPeer name allowedIps keepalive => Tunnel.addPeer settings name allowedIps keepalive
  | deletePeer name publicKey => Tunnel.deletePeer settings name publicKey

/-- The stages of a job, all in order. Numbers and names are the kernel's, and keys are drawn. -/
inductive Course (settings : Settings) (host : Host) : Job → List Stage → Prop
  | describe (name : String) (family : FamilyInfo) :
      Course settings host (.describe name) (finding settings family name)
  | peers (name : String) (family : FamilyInfo) :
      Course settings host (.peers name) (finding settings family name)
  | names : Course settings host .names listing
  | describeAll (family : FamilyInfo) {found : List String}
      (hfound : Gives ((Tunnel.names settings).run host).1 found) :
      Course settings host .describeAll (listing ++ describing settings family found)
  | create (name : String) (port : UInt16) (family : FamilyInfo) (key : Key) :
      Course settings host (.create name port)
        ([.opening .route, .asking (.adding name)] ++ (finding settings family name ++
          applying family name { privateKey := some key, listenPort := some port }))
  | delete (name : String) {index : UInt32}
      (hindex : Gives ((Host.indexOf name).run host).1 index) :
      Course settings host (.delete name)
        [.indexing name, .opening .route, .asking (.removing name index)]
  | addPeer (name : String) (allowedIps : List String) (keepalive : UInt16) (family : FamilyInfo)
      (peer : PeerChange) :
      Course settings host (.addPeer name allowedIps keepalive)
        (finding settings family name ++ applying family name { peers := [peer] })
  | deletePeer (name text : String) (family : FamilyInfo) (publicKey : Key) :
      Course settings host (.deletePeer name text)
        (finding settings family name ++
          applying family name { peers := [{ publicKey, remove := true }] })

/-- The only job that can fail without a stage that fails is to delete a peer that is not there. -/
theorem exists_follows [Base64.Codec] [Curve.Product] (job : Job) (settings : Settings)
    (host : Host) :
    (∃ course, job.Course settings host course ∧
        Follows settings (job.operation settings) none host course fun _ _ => True) ∨
      ∃ name text family next after, job = .deletePeer name text ∧
        (job.operation settings).run host = (.error (.peerNotFound name text), after) ∧
        ¬ HasPeer settings name text host ∧
        PassesAll settings none host (finding settings family name) next after := by
  cases job with
  | describe name =>
      obtain ⟨family, h⟩ := exists_follows_fetch name (DeviceReport.ofSnapshot name) host
      exact .inl ⟨_, .describe name family, h⟩
  | peers name =>
      obtain ⟨family, h⟩ := exists_follows_fetch name
        (fun snapshot => snapshot.peers.map PeerReport.ofPeer) host
      exact .inl ⟨_, .peers name family, h⟩
  | names => exact .inl ⟨_, .names, follows_names⟩
  | describeAll =>
      obtain ⟨family, found, hfound, h⟩ := exists_follows_describeAll none host
      exact .inl ⟨_, .describeAll family hfound, h⟩
  | create name port =>
      obtain ⟨family, key, h⟩ := exists_follows_create name port host
      exact .inl ⟨_, .create name port family key, h⟩
  | delete name =>
      obtain ⟨index, hindex, h⟩ := exists_follows_delete name none host
      exact .inl ⟨_, .delete name hindex, h⟩
  | addPeer name allowedIps keepalive =>
      obtain ⟨family, peer, h⟩ := exists_follows_addPeer name allowedIps keepalive host
      exact .inl ⟨_, .addPeer name allowedIps keepalive family peer, h⟩
  | deletePeer name text =>
      rcases exists_follows_deletePeer name text none host with
        ⟨family, publicKey, h⟩ | ⟨family, next, after, hrun, hpeer, hpasses⟩
      · exact .inl ⟨_, .deletePeer name text family publicKey, h⟩
      · exact .inr ⟨name, text, family, next, after, rfl, hrun, hpeer, hpasses⟩

/-- A job goes through its stages in order and stops at the first that fails, with the failure that
the stage stands for: nothing is opened or sent behind it. To find a device fails without replies,
and with replies that cannot be read. -/
theorem stops_at_first_failure [Base64.Codec] [Curve.Product] (job : Job) (settings : Settings)
    (host : Host) :
    (∃ (course front : List Stage) (socket : Option Socket) (reached : Host)
      (events : List (List Event)),
      job.Course settings host course ∧ front <+: course ∧
      PassesAll settings none host front socket reached ∧
      reached.trace = host.trace ++ events.flatten ∧ List.Forall₂ Stage.RecordedAs front events ∧
      ((∃ result, (job.operation settings).run host = (.ok result, reached) ∧ front = course) ∨
        (∃ stage failure after last,
          (job.operation settings).run host = (.error failure, after) ∧
          front ++ [stage] <+: course ∧ stage.Fails settings socket reached failure after ∧
          after.trace = reached.trace ++ last ∧ (stage.RecordedAs last ∨ last = [])) ∨
        ∃ name text family, job = .deletePeer name text ∧ ¬ HasPeer settings name text host ∧
          front = finding settings family name ∧
          (job.operation settings).run host = (.error (.peerNotFound name text), reached))) ∧
    ∀ (family : FamilyInfo) (name : String) (socket after : Socket) (replies : List Bytes),
      (Socket.dump (Errand.fetching family name).request.draft).run socket =
        (.ok replies, after) →
      ((Errand.fetching family name).exchange.run socket).1 =
        if replies = [] then .error (.kernel Errno.noDevice) else Snapshot.ofReplies replies := by
  refine ⟨?_, fun _ _ _ _ _ => Socket.fst_run_device⟩
  rcases job.exists_follows settings host with
    ⟨course, hcourse, hfollows⟩ | ⟨name, text, family, next, after, rfl, hrun, hpeer, hpasses⟩
  · cases hfollows with
    | passed hrun _ hpasses =>
        obtain ⟨events, htrace, hevents⟩ := hpasses.exists_events
        exact ⟨course, course, _, _, events, hcourse, List.prefix_rfl, hpasses, htrace, hevents,
          .inl ⟨_, hrun, rfl⟩⟩
    | stopped hrun hstops =>
        obtain ⟨front, stage, socket, reached, hprefix, hpasses, hfails⟩ := hstops
        obtain ⟨events, htrace, hevents⟩ := hpasses.exists_events
        obtain ⟨last, hlast, hrecorded⟩ := hfails.exists_events
        exact ⟨course, front, socket, reached, events, hcourse,
          (List.prefix_append front [stage]).trans hprefix, hpasses, htrace, hevents,
          .inr (.inl ⟨stage, _, _, last, hrun, hprefix, hfails, hlast, hrecorded⟩)⟩
  · obtain ⟨events, htrace, hevents⟩ := hpasses.exists_events
    exact ⟨_, finding settings family name, next, after, events,
      .deletePeer name text family (Octets.zero 32), List.prefix_append _ _, hpasses, htrace,
      hevents, .inr (.inr ⟨name, text, family, rfl, hpeer, rfl, hrun⟩)⟩

theorem stops_at_first_failure_refused_change :
    let accepted : Message := ⟨⟨36, 2, 0, 1, 0⟩, List.replicate 20 0⟩
    let info : Message := ⟨⟨28, 16, 0, 1, 0⟩, [1, 2, 0, 0, 6, 0, 1, 0, 26, 0, 0, 0]⟩
    let device : Message := ⟨⟨20, 26, 2, 2, 0⟩, [0, 1, 0, 0]⟩
    let final : Message := ⟨⟨20, 3, 2, 2, 0⟩, [0, 0, 0, 0]⟩
    let refusal : Message := ⟨⟨36, 2, 0, 3, 0⟩, List.replicate 4 255 ++ List.replicate 16 0⟩
    let route : Script := { arrivals := [.datagram (Message.packet [accepted])] }
    let generic : Script := { arrivals :=
      [.datagram (Message.packet [info]), .datagram (Message.packet [device, final]),
        .datagram (Message.packet [refusal])] }
    let host : Host := { scripts := [route, generic] }
    let job : Job := .create "wg0" 51820
    ∃ (course front : List Stage) (family : FamilyInfo) (change part : DeviceChange)
      (hpart : part ∈ change.requests) (socket : Option Socket) (reached after : Host),
      job.Course {} host course ∧
      front ++ [.asking (.configuring family "wg0" change part hpart)] <+: course ∧
      PassesAll {} none host front socket reached ∧
      (Stage.asking (.configuring family "wg0" change part hpart)).Fails {} socket reached
        (.configureDevice "wg0" (.kernel 1)) after ∧
      (job.operation {}).run host = (.error (.configureDevice "wg0" (.kernel 1)), after) := by
  intro accepted info device final refusal route generic host job
  have hfailed : ((Tunnel.create {} "wg0" 51820).run host).1 =
      .error (.configureDevice "wg0" (.kernel 1)) := by decide +kernel
  obtain ⟨⟨course, front, socket, reached, events, hcourse, -, hpasses, -, -, hends⟩, -⟩ :=
    stops_at_first_failure (.create "wg0" 51820) {} host
  rcases hends with ⟨result, hrun, -⟩ | ⟨stage, failure, after, last, hrun, hprefix, hfails, -⟩ |
    ⟨name, text, family, hjob, -⟩
  · have hvalue : ((Tunnel.create {} "wg0" 51820).run host).1 = .ok result := congrArg Prod.fst hrun
    rw [hfailed] at hvalue
    cases hvalue
  · have hfailure : ((Tunnel.create {} "wg0" 51820).run host).1 = .error failure :=
      congrArg Prod.fst hrun
    rw [hfailed] at hfailure
    cases hfailure
    obtain ⟨family, change, part, hpart, rfl⟩ := hfails.exists_configuring
    exact ⟨course, front, family, change, part, hpart, socket, reached, after, hcourse, hprefix,
      hpasses, hfails, hrun⟩
  · cases hjob

end Job

end TunnelControl.Tunnel
