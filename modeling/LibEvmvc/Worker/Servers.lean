import LibEvmvc.Foundation.UMap
import LibEvmvc.Http.Headers

set_option autoImplicit false

/-! # The servers of a worker

A worker makes one `child_server` for each configured server and finds them by number, by name or by
an alias. A number is the hash of the name, and a number that is taken is not given again, so that of
two servers with one number the first stays.

The server of a connection can change while its TLS handshake asks for a name
(`_ssl_sni_servername`). The certificate is then that of the server that was found; whether clients
are asked for theirs is still what the server says at whose address they came in. -/

namespace LibEvmvc

/-- What is used of `server_options`. -/
structure ServerOptions where
  name : Bytes
  aliases : List Bytes := []
  /-- `ssl.verify_mode` -/
  verifyMode : Nat := 0
  /-- `ssl.ssl_opts` -/
  sslOpts : Nat := 0
  deriving DecidableEq, Repr

/-- `_servers` of a worker, by their numbers. -/
abbrev Servers := UMap (id : Nat → Nat) ServerOptions

/-- The part of `http_worker_t::start` that makes the servers. `hash` is `std::hash`. -/
def startServers (hash : Bytes → Nat) (servers : List ServerOptions) : Servers :=
  servers.foldl (fun m s => m.emplace (hash s.name) s) (UMap.empty _ _)

namespace Servers

variable (m : Servers) (o : IterOrder Nat ServerOptions)

def findServerById (i : Nat) : Option ServerOptions := m.get? i

def findServerByName (name : Bytes) : Option ServerOptions :=
  ((m.iterate o).find? fun e => strcasecmp e.2.name name).map Prod.snd

def findServerByAlias (name : Bytes) : Option ServerOptions :=
  ((m.iterate o).find? fun e => e.2.aliases.any fun a => strcasecmp a name).map Prod.snd

end Servers

/-! ## The server for a name -/

/-- What is used of a connection and of its `SSL` session. -/
structure TlsSession where
  /-- `_server` of the connection -/
  server : ServerOptions
  /-- `conn_flags::server_via_sni` -/
  viaSni : Bool
  /-- The server whose context the session has. -/
  ctx : ServerOptions
  options : Nat
  verifyMode : Nat
  renegotiations : Nat
  deriving DecidableEq, Repr

/-- `SSL_VERIFY_NONE` -/
def sslVerifyNone : Nat := 0

inductive SniResult where
  | ok
  | noack
  deriving DecidableEq, Repr

/-- `_ssl_sni_servername`, for a session that has a connection and a worker. `opts` are the options of
    a server's context. -/
def sslSniServername (m : Servers) (o : IterOrder Nat ServerOptions) (opts : ServerOptions → Nat)
    (t : TlsSession) : Option Bytes → SniResult × TlsSession
  | none => (.noack, t)
  | some name =>
    let ctx := t.ctx
    if strcasecmp ctx.name name then (.ok, t)
    else
      match (m.findServerByName o name).or (m.findServerByAlias o name) with
      | none => (.noack, t)
      | some rs =>
        let t := { t with viaSni := true, server := rs, ctx := rs }
        let t := { t with options := t.options ||| opts ctx }
        if t.verifyMode = sslVerifyNone ∨ t.renegotiations = 0 then
          (.ok, { t with verifyMode := ctx.verifyMode })
        else (.ok, t)

/-! ## What is found -/

theorem get?_foldl_emplace_servers (hash : Bytes → Nat) (servers : List ServerOptions) (m : Servers)
    (i : Nat) :
    (servers.foldl (fun m s => m.emplace (hash s.name) s) m).get? i =
      (m.get? i).or (servers.find? fun s => hash s.name = i) := by
  induction servers generalizing m with
  | nil => rw [List.foldl_nil, List.find?_nil, Option.or_none]
  | cons s servers ih =>
    rw [List.foldl_cons, ih, UMap.get?_emplace, List.find?_cons]
    by_cases hi : i = hash s.name
    · subst hi
      cases m.get? (hash s.name) <;> simp
    · simp [hi, Ne.symm hi]

/-- A number leads to the first server that has it. -/
theorem findServerById_start (hash : Bytes → Nat) (servers : List ServerOptions) (i : Nat) :
    (startServers hash servers).findServerById i = servers.find? fun s => hash s.name = i := by
  rw [Servers.findServerById, startServers, get?_foldl_emplace_servers, UMap.get?_empty, Option.none_or]

/-- With a number for each name, each server is found. -/
theorem findServerById_of_nodup {hash : Bytes → Nat} {servers : List ServerOptions}
    (h : (servers.map fun s => hash s.name).Nodup) {s : ServerOptions} (hs : s ∈ servers) :
    (startServers hash servers).findServerById (hash s.name) = some s := by
  rw [findServerById_start]
  cases hfind : servers.find? fun t => hash t.name = hash s.name with
  | none => simpa using List.find?_eq_none.1 hfind s hs
  | some t =>
    have heq : hash t.name = hash s.name := by simpa using List.find?_some hfind
    rw [List.inj_on_of_nodup_map h (List.mem_of_find?_eq_some hfind) hs heq]

section

variable {m : Servers} {o : IterOrder Nat ServerOptions}

theorem findServer_eq_some {p : ServerOptions → Bool} {s : ServerOptions}
    (h : ((m.iterate o).find? fun e => p e.2).map Prod.snd = some s) :
    (∃ i, m.get? i = some s) ∧ p s = true := by
  obtain ⟨e, hfind, rfl⟩ := Option.map_eq_some_iff.1 h
  have hmem := (UMap.mem_iterate m o e).1 (List.mem_of_find?_eq_some hfind)
  have hp := List.find?_some hfind
  exact ⟨⟨e.1, UMap.get?_of_mem hmem⟩, hp⟩

theorem findServer_eq_none {p : ServerOptions → Bool} :
    ((m.iterate o).find? fun e => p e.2).map Prod.snd = none ↔
      ∀ i s, m.get? i = some s → p s = false := by
  rw [Option.map_eq_none_iff, List.find?_eq_none]
  constructor
  · intro h i s hs
    obtain ⟨e, hmem, -, rfl⟩ := UMap.get?_eq_some_iff.1 hs
    exact Bool.eq_false_iff.2 (h e ((UMap.mem_iterate m o e).2 hmem))
  · intro h e he
    rw [UMap.mem_iterate] at he
    exact Bool.eq_false_iff.1 (h e.1 e.2 (UMap.get?_of_mem he))

/-- The server has the name. -/
def ServerOptions.named (name : Bytes) (s : ServerOptions) : Bool := strcasecmp s.name name

/-- The server has the name as an alias. -/
def ServerOptions.aliased (name : Bytes) (s : ServerOptions) : Bool :=
  s.aliases.any fun a => strcasecmp a name

/-- Which server is found, in whatever order they are gone through. -/
theorem findServer_cases (m : Servers) (o : IterOrder Nat ServerOptions) (name : Bytes) :
    ((m.findServerByName o name).or (m.findServerByAlias o name) = none ∧
      ∀ i s, m.get? i = some s → s.named name = false ∧ s.aliased name = false) ∨
    ∃ rs, (m.findServerByName o name).or (m.findServerByAlias o name) = some rs ∧
      (∃ i, m.get? i = some rs) ∧
      (rs.named name = true ∨
        rs.aliased name = true ∧ ∀ i s, m.get? i = some s → s.named name = false) := by
  cases hname : m.findServerByName o name with
  | some rs =>
    have hfound := findServer_eq_some (p := ServerOptions.named name) hname
    exact .inr ⟨rs, rfl, hfound.1, .inl hfound.2⟩
  | none =>
    have hnobody := (findServer_eq_none (p := ServerOptions.named name)).1 hname
    cases halias : m.findServerByAlias o name with
    | some rs =>
      have hfound := findServer_eq_some (p := ServerOptions.aliased name) halias
      exact .inr ⟨rs, rfl, hfound.1, .inr ⟨hfound.2, hnobody⟩⟩
    | none =>
      have hneither := (findServer_eq_none (p := ServerOptions.aliased name)).1 halias
      exact .inl ⟨rfl, fun i s hs => ⟨hnobody i s hs, hneither i s hs⟩⟩

end

/-- What asking for a name comes to. -/
structure SniServes (m : Servers) (name : Bytes) (t : TlsSession) (r : SniResult × TlsSession) : Prop where
  /-- The handshake goes on exactly if some server answers to the name. -/
  ok_iff : r.1 = .ok ↔
    t.ctx.named name = true ∨ ∃ i s, m.get? i = some s ∧ (s.named name = true ∨ s.aliased name = true)
  /-- The certificate is then one for the name, and for an alias only if no server has the name. -/
  served : r.1 = .ok → r.2.ctx.named name = true ∨
    r.2.ctx.aliased name = true ∧ ∀ i s, m.get? i = some s → s.named name = false
  /-- The session stays as it is, or the connection goes to the server whose certificate it then has. -/
  server : r.2 = t ∨ r.2.server = r.2.ctx ∧ r.2.viaSni = true
  /-- Clients are verified as before, or as the server says whose certificate the session had. -/
  verified : r.2.verifyMode = t.verifyMode ∨ r.2.verifyMode = t.ctx.verifyMode

end LibEvmvc
