import RemoteCall.Pipe.Manager

/-! Pipes by their paths. A path leads to the name that is left when backslashes at its front are
taken away, and then `pipe\`, in any case (`LeadsTo`). This is done once to see whether a pipe exists,
but twice to open it, so the two agree only where the name does not begin like a path itself
(`PipeManager.agrees_iff`). -/

namespace RemoteCall

/-! ## Names within paths -/

/-- `pipe\`, in any case. -/
def IsPipeLead (lead : List Char) : Prop :=
  ∃ pipe, lead = pipe ++ ['\\'] ∧ pipe.map Char.toLower = ['p', 'i', 'p', 'e']

/-- The characters do not begin like a path, neither with a backslash nor with `pipe\`. -/
structure Bare (cs : List Char) : Prop where
  slash : ∀ rest, cs ≠ '\\' :: rest
  lead : ∀ lead rest, IsPipeLead lead → cs ≠ lead ++ rest

/-- Backslashes, then the name, with `pipe\` before it or without. -/
inductive LeadsTo : List Char → List Char → Prop
  | bare {slashes name : List Char} (hslashes : ∀ c ∈ slashes, c = '\\') (hname : Bare name) :
      LeadsTo (slashes ++ name) name
  | lead {slashes lead name : List Char} (hslashes : ∀ c ∈ slashes, c = '\\')
      (hlead : IsPipeLead lead) : LeadsTo (slashes ++ (lead ++ name)) name

theorem IsPipeLead.ne_slash {lead rest : List Char} (h : IsPipeLead lead) (name : List Char) :
    lead ++ name ≠ '\\' :: rest := by
  obtain ⟨pipe, rfl, hpipe⟩ := h
  intro hslash
  cases pipe with
  | nil => cases hpipe
  | cons c pipe =>
    obtain ⟨rfl, -⟩ := List.cons.inj hslash
    exact absurd (List.cons.inj hpipe).1 (by decide)

theorem afterPipe?_eq_some_iff {cs rest : List Char} :
    afterPipe? cs = some rest ↔ ∃ lead, IsPipeLead lead ∧ cs = lead ++ rest := by
  constructor
  · intro h
    unfold afterPipe? at h
    split at h
    · rename_i p i q e rest'
      split at h
      · rename_i hpipe
        cases h
        exact ⟨_, ⟨[p, i, q, e], rfl, hpipe⟩, rfl⟩
      · cases h
    · cases h
  · rintro ⟨_, ⟨pipe, rfl, hpipe⟩, rfl⟩
    obtain ⟨p, _, rfl, -, hpipe'⟩ := List.map_eq_cons_iff.mp hpipe
    obtain ⟨i, _, rfl, -, hpipe'⟩ := List.map_eq_cons_iff.mp hpipe'
    obtain ⟨q, _, rfl, -, hpipe'⟩ := List.map_eq_cons_iff.mp hpipe'
    obtain ⟨e, _, rfl, -, hpipe'⟩ := List.map_eq_cons_iff.mp hpipe'
    obtain rfl := List.map_eq_nil_iff.mp hpipe'
    exact if_pos hpipe

theorem bare_iff {cs : List Char} :
    Bare cs ↔ (∀ rest, cs ≠ '\\' :: rest) ∧ afterPipe? cs = none := by
  constructor
  · rintro ⟨hslash, hlead⟩
    refine ⟨hslash, ?_⟩
    cases hafter : afterPipe? cs with
    | none => rfl
    | some rest =>
      obtain ⟨lead, hpipe, hcs⟩ := afterPipe?_eq_some_iff.mp hafter
      exact absurd hcs (hlead lead rest hpipe)
  · rintro ⟨hslash, hafter⟩
    refine ⟨hslash, fun lead rest hpipe hcs => ?_⟩
    rw [afterPipe?_eq_some_iff.mpr ⟨lead, hpipe, hcs⟩] at hafter
    cases hafter

theorem dropWhile_slashes {slashes name : List Char} (hslashes : ∀ c ∈ slashes, c = '\\')
    (hname : ∀ rest, name ≠ '\\' :: rest) : (slashes ++ name).dropWhile (· == '\\') = name := by
  rw [List.dropWhile_append_of_pos fun c hc => beq_iff_eq.mpr (hslashes c hc)]
  cases name with
  | nil => rfl
  | cons c rest =>
    refine List.dropWhile_cons_of_neg ?_
    rw [beq_iff_eq]
    rintro rfl
    exact hname rest rfl

theorem exists_slashes (cs : List Char) : ∃ slashes name, cs = slashes ++ name ∧
    (∀ c ∈ slashes, c = '\\') ∧ ∀ rest, name ≠ '\\' :: rest := by
  induction cs with
  | nil => exact ⟨[], [], rfl, List.forall_mem_nil _, nofun⟩
  | cons c cs ih =>
    by_cases hc : c = '\\'
    · obtain ⟨slashes, name, rfl, hslashes, hname⟩ := ih
      exact ⟨c :: slashes, name, rfl, List.forall_mem_cons.mpr ⟨hc, hslashes⟩, hname⟩
    · refine ⟨[], c :: cs, rfl, List.forall_mem_nil _, fun rest hrest => hc ?_⟩
      exact (List.cons.inj hrest).1

/-- A path leads to one name, which is what is left when it is stripped. -/
theorem stripPipePath_eq_iff {cs name : List Char} : stripPipePath cs = name ↔ LeadsTo cs name := by
  constructor
  · rintro rfl
    obtain ⟨slashes, body, rfl, hslashes, hbody⟩ := exists_slashes cs
    unfold stripPipePath
    rw [dropWhile_slashes hslashes hbody]
    dsimp only
    cases hafter : afterPipe? body with
    | none => exact .bare hslashes (bare_iff.mpr ⟨hbody, hafter⟩)
    | some rest =>
      obtain ⟨lead, hlead, rfl⟩ := afterPipe?_eq_some_iff.mp hafter
      exact .lead hslashes hlead
  · intro h
    unfold stripPipePath
    cases h with
    | bare hslashes hname =>
      rw [dropWhile_slashes hslashes hname.slash]
      dsimp only
      rw [(bare_iff.mp hname).2]
      rfl
    | lead hslashes hlead =>
      rw [dropWhile_slashes hslashes fun _ => hlead.ne_slash name]
      dsimp only
      rw [afterPipe?_eq_some_iff.mpr ⟨_, hlead, rfl⟩]
      rfl

theorem LeadsTo.suffix {cs name : List Char} (h : LeadsTo cs name) : name <:+ cs := by
  cases h with
  | bare => exact List.suffix_append _ _
  | lead => exact (List.suffix_append _ _).trans (List.suffix_append _ _)

/-- Where nothing is stripped, there is nothing to strip. -/
theorem LeadsTo.bare_of_eq {path name : List Char} (h : LeadsTo path name) (heq : path = name) :
    Bare name := by
  cases h with
  | bare _ hname => exact hname
  | lead _ hlead =>
    obtain ⟨pipe, rfl, -⟩ := hlead
    have hlength := congrArg List.length heq
    simp only [List.length_append, List.length_singleton] at hlength
    omega

theorem leadsTo_self_iff {cs : List Char} : LeadsTo cs cs ↔ Bare cs :=
  ⟨fun h => h.bare_of_eq rfl, .bare (List.forall_mem_nil _)⟩

theorem leadsTo_pipeNameOf (path : String) : LeadsTo path.toList (pipeNameOf path).toList := by
  rw [pipeNameOf, String.toList_ofList]
  exact stripPipePath_eq_iff.mp rfl

/-- A name keeps its length if and only if it does not begin like a path. -/
theorem length_pipeNameOf_eq_iff {name : String} :
    (pipeNameOf name).length = name.length ↔ Bare name.toList := by
  have hleads := leadsTo_pipeNameOf name
  rw [← String.length_toList, ← String.length_toList]
  constructor
  · intro hlength
    have heq := hleads.suffix.eq_of_length hlength
    exact heq ▸ hleads.bare_of_eq heq.symm
  · intro h
    rw [pipeNameOf, String.toList_ofList, stripPipePath_eq_iff.mpr (leadsTo_self_iff.mpr h)]

theorem pipeNameOf_eq_self {name : String} (h : Bare name.toList) : pipeNameOf name = name := by
  rw [pipeNameOf, stripPipePath_eq_iff.mpr (leadsTo_self_iff.mpr h), String.ofList_toList]

/-! ## Services behind pipes -/

/-- The service has this pipe name, in any case. -/
def Service.IsNamed (s : Service) (name : String) : Prop := s.pipeName.toLower = name.toLower

/-- Some service has this pipe name. -/
def Registry.Serves (r : Registry) (name : String) : Prop := ∃ s ∈ r.services, s.IsNamed name

theorem Registry.byPipe?_eq_some {r : Registry} {s : Service} {path : String}
    (h : r.byPipe? path = some s) : s ∈ r.services ∧ s.IsNamed (pipeNameOf path) := by
  refine ⟨List.mem_of_find?_eq_some h, ?_⟩
  have hsame := List.find?_some h
  rwa [sameIgnoringCase, beq_iff_eq] at hsame

theorem Registry.byPipe?_isSome_iff {r : Registry} {path : String} :
    (r.byPipe? path).isSome = true ↔ r.Serves (pipeNameOf path) := by
  simp [byPipe?, sameIgnoringCase, Serves, Service.IsNamed]

theorem length_eq_of_toLower_eq {a b : String} (h : a.toLower = b.toLower) :
    a.length = b.length := by
  have hlength : (a.map Char.toLower).length = (b.map Char.toLower).length :=
    congrArg String.length h
  rwa [String.length_map, String.length_map] at hlength

namespace PipeManager

variable {m : PipeManager} {path : String} {p : Pipe}

/-- There is a service behind the pipe, and the pipe has its name in lower case. -/
def IsBehind (m : PipeManager) (p : Pipe) : Prop :=
  ∃ s ∈ m.registry.services, p.endpoint = .ofService s ∧ p.name = s.pipeName.toLower

/-- A path can be opened if and only if its pipe exists, and what it opens is the pipe of a
service. -/
structure Agrees (m : PipeManager) (path : String) : Prop where
  opens : m.pipeExists path = true ↔ ∃ p, (m.openPipe path).1 = .ok p
  named : ∀ p, (m.openPipe path).1 = .ok p → m.IsBehind p

theorem pipeExists_iff : m.pipeExists path = true ↔ m.registry.Serves (pipeNameOf path) :=
  Registry.byPipe?_isSome_iff

theorem openPipe_of_some {s : Service} (hs : m.registry.byPipe? (pipeNameOf path) = some s) :
    (m.openPipe path).1 =
      .ok (Pipe.of (m.instances.length + 1) (pipeNameOf path).toLower (.ofService s)) := by
  unfold openPipe
  dsimp only
  rw [hs]

theorem openPipe_of_none (hnone : m.registry.byPipe? (pipeNameOf path) = none) :
    m.openPipe path = (.error (.invalidParameter (.noPipe path)), m) := by
  unfold openPipe
  dsimp only
  rw [hnone]

/-- The name is stripped once more before a service is looked for, but the pipe gets it as it was
before. -/
theorem openPipe_ok (h : (m.openPipe path).1 = .ok p) :
    ∃ s ∈ m.registry.services, s.IsNamed (pipeNameOf (pipeNameOf path)) ∧
      p.endpoint = .ofService s ∧ p.name = (pipeNameOf path).toLower := by
  cases hs : m.registry.byPipe? (pipeNameOf path) with
  | none =>
    rw [openPipe_of_none hs] at h
    cases h
  | some s =>
    rw [openPipe_of_some hs] at h
    cases h
    obtain ⟨hmem, hnamed⟩ := Registry.byPipe?_eq_some hs
    exact ⟨s, hmem, hnamed, rfl, rfl⟩

theorem openPipe_ok_iff : (∃ p, (m.openPipe path).1 = .ok p) ↔
    m.registry.Serves (pipeNameOf (pipeNameOf path)) := by
  constructor
  · rintro ⟨p, hp⟩
    obtain ⟨s, hmem, hnamed, -⟩ := openPipe_ok hp
    exact ⟨s, hmem, hnamed⟩
  · intro h
    obtain ⟨s, hs⟩ := Option.isSome_iff_exists.mp (Registry.byPipe?_isSome_iff.mpr h)
    exact ⟨_, openPipe_of_some hs⟩

theorem openPipe_of_not_serves (h : ¬m.registry.Serves (pipeNameOf (pipeNameOf path))) :
    m.openPipe path = (.error (.invalidParameter (.noPipe path)), m) :=
  openPipe_of_none <| Option.not_isSome_iff_eq_none.mp fun hsome =>
    h (Registry.byPipe?_isSome_iff.mp hsome)

/-- A name that begins like a path itself is not the name of the service that it opens. -/
theorem bare_of_isBehind (hok : (m.openPipe path).1 = .ok p) (hbehind : m.IsBehind p) :
    Bare (pipeNameOf path).toList := by
  obtain ⟨s, -, hnamed, hendpoint, hname⟩ := openPipe_ok hok
  obtain ⟨t, -, hendpoint', hname'⟩ := hbehind
  obtain rfl : s = t := Option.some.inj (congrArg Endpoint.service (hendpoint.symm.trans hendpoint'))
  refine length_pipeNameOf_eq_iff.mp (length_eq_of_toLower_eq ?_)
  exact hnamed.symm.trans (hname'.symm.trans hname)

theorem agrees_of_bare (h : Bare (pipeNameOf path).toList) : m.Agrees path := by
  have hsame := pipeNameOf_eq_self h
  refine ⟨?_, fun p hp => ?_⟩
  · rw [pipeExists_iff, openPipe_ok_iff, hsame]
  · obtain ⟨s, hmem, hnamed, hendpoint, hname⟩ := openPipe_ok hp
    rw [hsame] at hnamed
    exact ⟨s, hmem, hendpoint, hname.trans hnamed.symm⟩

/-- **A pipe exists if and only if it can be opened, but not for a name that begins like a path.** A
path leads to a name, and the pipe exists if this is the name of a service. It can be opened if the
name, taken for a path, leads to the name of a service, and the new pipe keeps the name itself. So
the two agree if the name does not begin like a path, or if no service has either name. -/
theorem agrees_iff (m : PipeManager) (path : String) :
    let name := pipeNameOf path
    LeadsTo path.toList name.toList ∧
      (m.pipeExists path = true ↔ m.registry.Serves name) ∧
      ((∃ p, (m.openPipe path).1 = .ok p) ↔ m.registry.Serves (pipeNameOf name)) ∧
      (¬m.registry.Serves (pipeNameOf name) →
        m.openPipe path = (.error (.invalidParameter (.noPipe path)), m)) ∧
      (∀ p, (m.openPipe path).1 = .ok p → p.name = name.toLower ∧
        ∃ s ∈ m.registry.services, s.IsNamed (pipeNameOf name) ∧ p.endpoint = .ofService s) ∧
      (m.Agrees path ↔
        Bare name.toList ∨ ¬m.registry.Serves name ∧ ¬m.registry.Serves (pipeNameOf name)) := by
  refine ⟨leadsTo_pipeNameOf path, pipeExists_iff, openPipe_ok_iff, openPipe_of_not_serves,
    fun p hp => ?pipe, ?agrees, ?disagrees⟩
  case pipe =>
    obtain ⟨s, hmem, hnamed, hendpoint, hname⟩ := openPipe_ok hp
    exact ⟨hname, s, hmem, hnamed, hendpoint⟩
  case agrees =>
    intro h
    by_cases hopens : m.registry.Serves (pipeNameOf (pipeNameOf path))
    · obtain ⟨p, hp⟩ := openPipe_ok_iff.mpr hopens
      exact .inl (bare_of_isBehind hp (h.named p hp))
    · refine .inr ⟨fun hserves => hopens ?_, hopens⟩
      exact openPipe_ok_iff.mp (h.opens.mp (pipeExists_iff.mpr hserves))
  case disagrees =>
    rintro (hbare | ⟨hexists, hopens⟩)
    · exact agrees_of_bare hbare
    · have hfails : ¬∃ p, (m.openPipe path).1 = .ok p := mt openPipe_ok_iff.mp hopens
      exact ⟨iff_of_false (mt pipeExists_iff.mp hexists) hfails, fun p hp => absurd ⟨p, hp⟩ hfails⟩

def samplePipes : PipeManager := .of (.default {} [])

/-- A path within a path: there is no such pipe, but it can be opened, under a name that no service
has. -/
theorem pathWithinPath_disagrees :
    samplePipes.pipeExists "\\PIPE\\PIPE\\srvsvc" = false ∧
      (samplePipes.openPipe "\\PIPE\\PIPE\\srvsvc").1.map (·.name) = .ok "pipe\\srvsvc" ∧
      ¬samplePipes.Agrees "\\PIPE\\PIPE\\srvsvc" := by
  have hexists : samplePipes.pipeExists "\\PIPE\\PIPE\\srvsvc" = false := by
    decide +kernel
  have hopens : (samplePipes.openPipe "\\PIPE\\PIPE\\srvsvc").1.map (·.name) =
      .ok "pipe\\srvsvc" := by
    with_unfolding_all rfl
  refine ⟨hexists, hopens, fun hagrees => ?_⟩
  cases hopened : (samplePipes.openPipe "\\PIPE\\PIPE\\srvsvc").1 with
  | error err =>
    rw [hopened] at hopens
    cases hopens
  | ok p =>
    rw [hagrees.opens.mpr ⟨p, hopened⟩] at hexists
    cases hexists

end PipeManager

end RemoteCall
