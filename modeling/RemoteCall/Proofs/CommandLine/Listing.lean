import Mathlib.Data.List.TakeDrop
import RemoteCall.CommandLine.ServerOptions
import RemoteCall.CommandLine.Session
import RemoteCall.Proofs.Client.Calls
import RemoteCall.Proofs.Client.Connections
import RemoteCall.Proofs.Service.Operations

/-! The client program lists the shares that the server program was set up with
(`runClient_shares`). -/

namespace RemoteCall

open Ndr

/-! ## Definitions of shares -/

section Definitions

open CommandLine

/-- The text of a definition before its first colon. -/
def definedName (definition : String) : String :=
  String.ofList (definition.toList.takeWhile (· != ':'))

theorem name_of_readShare {definition : String} {s : Share} (h : readShare definition = .ok s) :
    s.name = definedName definition := by
  unfold readShare at h
  split at h
  case h_2 => cases h
  case h_1 share hshare =>
    cases h
    unfold Share.ofDefinition? at hshare
    rw [List.span_eq_takeWhile_dropWhile] at hshare
    dsimp only at hshare
    split at hshare
    · cases hshare
    · cases hshare
    · cases hshare
      rfl

theorem names_of_readShare {definitions : List String} {shares : List Share}
    (h : definitions.mapM readShare = .ok shares) :
    shares.map (·.name) = definitions.map definedName := by
  induction definitions generalizing shares with
  | nil =>
    cases h
    rfl
  | cons d ds ih =>
    rw [List.mapM_cons] at h
    cases hd : readShare d with
    | error e =>
      rw [hd] at h
      cases h
    | ok s =>
      cases hds : ds.mapM readShare with
      | error e =>
        rw [hd, hds] at h
        cases h
      | ok rest =>
        rw [hd, hds] at h
        cases h
        simp [name_of_readShare hd, ih hds]

theorem Share.names_published (shares : List Share) : (published shares).map (·.name) =
    ipc.name :: (shares.map (·.name)).filter fun name => !sameIgnoringCase name ipc.name := by
  simp [published, List.filter_map, Function.comp_def]

end Definitions

namespace ServerService

/-- Asked for at a level that has a layout, all shares are listed. -/
theorem shareEnum_of {level : UInt32} (hlevel : level = 0 ∨ level = 1) (server : String)
    (shares : List Share) :
    (shareEnum shares (.of server level)).status = Status.success.code ∧
      (shareEnum shares (.of server level)).totalEntries = countOf shares.length ∧
      (shareEnum shares (.of server level)).info.names = shares.map (·.name) := by
  rcases hlevel with rfl | rfl
  · refine ⟨rfl, rfl, ?_⟩
    change ((shares.drop 0).map ShareInfo0.ofShare).filterMap _ = _
    rw [List.drop_zero, List.filterMap_map]
    exact congrFun (List.filterMap_eq_map (f := Share.name)) shares
  · refine ⟨rfl, rfl, ?_⟩
    change ((shares.drop 0).map ShareInfo1.ofShare).filterMap _ = _
    rw [List.drop_zero, List.filterMap_map]
    exact congrFun (List.filterMap_eq_map (f := Share.name)) shares

theorem ShareEnumRequest.info_ne_unknown {level : UInt32} (hlevel : level = 0 ∨ level = 1)
    (server : String) (other : UInt32) :
    (ShareEnumRequest.of server level).info ≠ .unknown other := by
  rcases hlevel with rfl | rfl <;> exact nofun

/-- The request for them can be sent. -/
theorem ShareEnumRequest.roundTrips_of {level : UInt32} (hlevel : level = 0 ∨ level = 1)
    {server : String} (hserver : Tellable server) :
    Message.RoundTrips (ShareEnumRequest.of server level) := by
  have hinfo : Storable (ShareListing.ask level) := by
    rcases hlevel with rfl | rfl
    · exact storable_some (α := Container ShareInfo0) storable_none
    · exact storable_some (α := Container ShareInfo1) storable_none
  exact ShareEnumRequest.roundTrips hserver.storable hinfo (info_ne_unknown hlevel server)

end ServerService

/-! ## The client at a pipe -/

namespace Client

variable {s : Service} {c : Client} {l : PipeLink}

theorem ensureBound_of_associated {σ : Type} {i : Interface} {a : Association} {c : Client} {l : σ}
    (ha : c.association = some a) (hi : a.interface = i) :
    ensureBound i (c, l) = .ok () (c, l) := by
  obtain ⟨config, _, callId⟩ := c
  cases ha
  cases hi
  refine (bind_of_ok rfl).trans ?_
  simp only [bne_self_eq_false, Bool.false_eq_true, if_false]
  rfl

/-- A call between messages comes to what the operation makes of the request. -/
theorem invoke_bound {α β : Type} [Message α] [Message β] {run : α → β} {opnum : UInt16}
    {request : α} (hbound : Bound s c l) (hquiet : Quiet l)
    (hoperation : s.operations.get? opnum = some (ServerService.handler run))
    (hrequest : Message.RoundTrips request) (hanswer : Message.RoundTrips (run request)) :
    ∃ c' l', invoke PipeLink.transport opnum request β (c, l) = .ok (run request) (c', l') := by
  obtain ⟨stub, hencode, hdecode, -⟩ := hrequest
  obtain ⟨bytes, hencode', hdecode', -⟩ := hanswer
  have houtcome : s.outcome opnum stub = .ok bytes := by
    unfold Service.outcome
    rw [hoperation]
    dsimp only
    rw [handler_of_decode hdecode hencode']
  obtain ⟨c', l', hcall, -, -⟩ := call_bound hbound hquiet opnum stub
  rw [houtcome] at hcall
  refine ⟨c', l', ?_⟩
  unfold invoke
  refine (bind_of_ok (given_of_ok hencode)).trans ?_
  exact (bind_of_ok hcall).trans (given_of_ok hdecode')

theorem Compatible.performCommand {σ τ : Type} {t : Transport σ} {u : Transport τ} {stand : σ → τ}
    {R : (α : Type) → Talk σ α → Talk τ α → Prop} (h : Compatible t u stand R) (server : String)
    (command : CommandLine.ClientCommand) :
    R (Except String (List String)) (command.perform t server) (command.perform u server) := by
  cases command with
  | _ =>
    exact h.bind (h.clientBind _) fun _ =>
      h.bind (h.bind (h.ensureBound _) fun _ => h.invoke _ _) fun _ => h.pure _

/-! ## The client at a server -/

/-- Over a connection that was refused, nothing comes back. -/
theorem bind_of_refused {c : Client} {connection : Connection} (h : connection.isOpen = false)
    (i : Interface) : bind TcpLink.transport i (c, ⟨some connection, []⟩) =
      .error .connectionClosed ({ c with callId := c.callId + 1 }, ⟨some connection, []⟩) := by
  obtain ⟨data, hdata⟩ := proposal_written c.config (c.callId + 1) i
  have hencode : (proposal c.config (c.callId + 1) i).encode = .ok data := hdata.encode
  let l : TcpLink := ⟨some connection, []⟩
  have hsend : TcpLink.send data l = (.ok (), l) := by
    simp [TcpLink.send, Connection.receive, h, l]
  have hreceive : TcpLink.receive l = (.error .connectionClosed, l) := by
    have hfront : front l.arrived = .incomplete := rfl
    simp [TcpLink.receive, hfront, h, l]
  refine (bind_of_encode hencode).trans ?_
  refine (bind_of_ok (onLink_of_ok hsend)).trans ?_
  exact bind_of_error (onLink_of_error hreceive)

end Client

namespace CommandLine

open Client ServerService

/-- Whatever the command is, it fails at a server that takes no connections. -/
theorem runClient_refused {s : Server} (h : s.config.maxConnections = 0) (o : ClientOptions)
    (command : ClientCommand) :
    runClient .reachable s o command = .failure [] Error.connectionClosed.describe := by
  have hclosed : (Connection.accept s).isOpen = false := by simp [Connection.accept, h]
  cases command with
  | _ =>
    unfold runClient converse ClientCommand.perform TcpLink.connect
    dsimp only
    rw [bind_of_error (bind_of_refused hclosed _)]

/-- What is printed of names: their number, and a line for each. -/
def listing (names : List String) : List String :=
  s!"{names.length} share(s):" :: names.map ("  " ++ ·)

theorem reply_shareEnum {level : UInt32} (hlevel : level = 0 ∨ level = 1) (server : String)
    {shares : List Share} (hlength : shares.length < 2 ^ 32) :
    let r := ServerService.shareEnum shares (.of server level)
    ClientCommand.reply r.status (sharesReport r) = .ok (listing (shares.map (·.name))) := by
  obtain ⟨hstatus, htotal, hnames⟩ := shareEnum_of hlevel server shares
  have hreport : sharesReport (ServerService.shareEnum shares (.of server level)) =
      listing (shares.map (·.name)) := by
    unfold sharesReport listing
    rw [htotal, hnames, toNat_countOf hlength, List.length_map]
  dsimp only
  rw [hstatus, hreport]
  rfl

/-- Through a pipe to a registry of the host, all shares are reported. -/
theorem perform_shares {host : HostIdentity} {shares : List Share} {c : Client} {l : PipeLink}
    (hlink : l.isConnected = true) (hsize : 65536 ≤ l.pipe.maxMessageSize) (hquiet : Quiet l)
    (hservice : l.pipe.endpoint.boundService (proposal c.config (c.callId + 1) .serverService)
      = some (ServerService.service host shares))
    (hroom : 25 ≤ c.config.maxTransmit.toNat) (hshares : ∀ s ∈ shares, s.IsTellable)
    (hlength : (Share.published shares).length < 2 ^ 32) {server : String}
    (hserver : Tellable server) {level : UInt32} (hlevel : level = 0 ∨ level = 1) :
    ∃ c' l', (ClientCommand.shares level).perform PipeLink.transport server (c, l) =
      .ok (.ok (listing ((Share.published shares).map (·.name)))) (c', l') := by
  let s := ServerService.service host shares
  have hndr : SyntaxId.ndr2 ∈ s.transferSyntaxes := (by decide : SyntaxId.ndr2 ∈ SyntaxId.supported)
  have hname : s.pipeName.utf8ByteSize ≤ 59000 := (by decide : "srvsvc".utf8ByteSize ≤ 59000)
  obtain ⟨a, c₁, l₁, hbind, ha, hinterface, hbound, hquiet₁⟩ :=
    bind_of_boundService (s := s) hlink hsize hquiet hservice hndr hname hroom
  have hrequest := ShareEnumRequest.roundTrips_of hlevel hserver
  have hanswer := (shareEnum_tells hlength (Share.published_tellable hshares)
    fun other h => absurd h (ShareEnumRequest.info_ne_unknown hlevel server other)).1
  have hoperation : s.operations.get? shareEnumOpnum =
      some (ServerService.handler (ServerService.shareEnum (Share.published shares))) := rfl
  obtain ⟨c₂, l₂, hinvoke⟩ := invoke_bound hbound hquiet₁ hoperation hrequest hanswer
  have henum : Client.shareEnum PipeLink.transport server level (c₁, l₁) = .ok _ (c₂, l₂) :=
    (bind_of_ok (ensureBound_of_associated ha hinterface)).trans hinvoke
  refine ⟨c₂, l₂, (bind_of_ok hbind).trans ((bind_of_ok henum).trans ?_)⟩
  rw [← reply_shareEnum hlevel server hlength]
  rfl

/-- A client binds to the server service of a host. -/
theorem boundService_default (host : HostIdentity) (shares : List Share) (config : ClientConfig)
    (callId : UInt32) :
    (Endpoint.ofRegistry (.default host shares)).boundService (proposal config callId .serverService)
      = some (ServerService.service host shares) := rfl

/-- **The client program lists the published shares.** Against a server that was set up with
definitions of shares, at either level and with any fragments that have room for a byte, it prints how
many names follow, and then `IPC$` and the names of the definitions, in order, but for those that are
`IPC$` themselves. The counts of shares and of the units of strings fit the words that carry them.
Only a server that was set up to take no connections tells it nothing. -/
theorem runClient_shares {definitions : List String} {shares : List Share}
    (hdefinitions : definitions.mapM readShare = .ok shares) (so : ServerOptions)
    (o : ClientOptions) {level : UInt32} (hlevel : level = 0 ∨ level = 1)
    (hroom : 25 ≤ o.maxFragment.toNat) (hshares : ∀ s ∈ shares, s.IsTellable)
    (hlength : (Share.published shares).length < 2 ^ 32) (hhost : Tellable ("\\\\" ++ o.host)) :
    let outcome := runClient .reachable (.of { so with shares }.config) o (.shares level)
    (0 < so.maxConnections → outcome = .success (listing ("IPC$" ::
        (definitions.map definedName).filter fun name => !sameIgnoringCase name "IPC$"))) ∧
      (so.maxConnections = 0 → ∃ reason, outcome = .failure [] reason) := by
  intro outcome
  refine ⟨fun hserves => ?_, fun hnone => ⟨_, runClient_refused hnone o _⟩⟩
  -- A pipe to the registry of the server, with nothing under way, stands for a new connection.
  let server := Server.of { so with shares }.config
  let l : PipeLink := .of "" (.of 0 "" (.ofRegistry server.registry)) server.groups
  obtain ⟨c', l', hperform⟩ := perform_shares (c := .of o.config) (l := l) rfl (Nat.le_refl _)
    ⟨rfl, rfl, rfl⟩ (boundService_default _ shares _ _) hroom hshares hlength hhost hlevel
  have hconnected := carriesOver_connection.performCommand _ _ _ _ _ _ _ hperform
  rw [Share.names_published, names_of_readShare hdefinitions] at hconnected
  have haccept : Connection.accept server = ⟨l.pipe.endpoint, l.groups, [], true⟩ :=
    congrArg (Connection.mk l.pipe.endpoint l.groups []) (decide_eq_true hserves)
  have hconnect : TcpLink.connect .reachable server = .ok l.toConnection := by
    unfold TcpLink.connect
    rw [haccept]
    rfl
  change runClient .reachable server o (.shares level) = _
  unfold runClient converse
  rw [hconnect]
  dsimp only
  rw [hconnected]
  rfl

def sampleDefinitions : List String := ["data:/srv/data:All data: old and new", "Ipc$:/tmp", "C$:"]

def sampleDefined : List Share :=
  [.disk "data" "/srv/data" "All data: old and new", .disk "Ipc$" "/tmp" "", .disk "C$" "" ""]

/-- Each fragment has room for one byte of the request. -/
theorem runClient_shares_sampleDefinitions :
    sampleDefinitions.mapM readShare = .ok sampleDefined ∧
    (∀ s ∈ sampleDefined, s.IsTellable) ∧ (Share.published sampleDefined).length < 2 ^ 32 ∧
    Tellable "\\\\files" ∧
    runClient .reachable (.of ({ shares := sampleDefined } : ServerOptions).config)
        { host := "files", maxFragment := 25 } (.shares 1) =
      .success ["3 share(s):", "  IPC$", "  data", "  C$"] := by
  have hdefinitions : sampleDefinitions.mapM readShare = .ok sampleDefined := rfl
  have hshares : ∀ s ∈ sampleDefined, s.IsTellable := by decide
  have hlength : (Share.published sampleDefined).length < 2 ^ 32 :=
    Nat.lt_of_le_of_lt (Share.length_published_le sampleDefined) (by decide)
  have hhost : Tellable "\\\\files" := by decide
  refine ⟨hdefinitions, hshares, hlength, hhost, ?_⟩
  refine ((runClient_shares hdefinitions {} { host := "files", maxFragment := 25 } (.inr rfl)
    (by decide) hshares hlength hhost).1 (by decide)).trans ?_
  have hnames : (sampleDefinitions.map definedName).filter (fun name => !sameIgnoringCase name "IPC$")
      = ["data", "C$"] := by
    simp only [sameIgnoringCase_eq]
    decide
  rw [hnames]
  rfl

end CommandLine

end RemoteCall
