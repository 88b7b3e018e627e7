import EmuThreeDS.Service.UdsNetwork

/-!
# Runs of a wireless network
-/
namespace EmuThreeDS.Uds

open Network (MacAddress)
open AssocList (lookup)
open Device (Hosting)

namespace Device

variable {device : Device} {transmitter : MacAddress} {frame : Frame}

theorem receive_avoids {site : Site} (other : Site.associationResponse ≠ site)
    (start : ∀ associationId node, frame = .eapolStart associationId node →
      Avoids site (device.handleEAPoLStart transmitter node)) :
    Avoids site (device.receive transmitter frame) := by
  cases frame with
  | associationResponse status associationId =>
    apply avoids_bind (avoids_assert.mpr fun same => (other same).elim)
    intro _ _
    split_ifs
    · exact avoids_ok _
    · exact avoids_ok _
  | eapolStart associationId node => exact start associationId node rfl
  | authentication | eapolLogoff | deauthentication | nodeMap => exact avoids_ok _

theorem guest_eapolStart (guest : device.connectionStatus.status ≠ .connectedAsHost)
    (node : NodeInfo) : Answers (device.handleEAPoLStart transmitter node) := by
  unfold handleEAPoLStart
  rw [if_pos guest]
  exact answers_ok _

end Device

theorem avoids_of_answers {α : Type} {x : Exec α} (answers : Answers x) (site : Site) :
    Avoids site x := by
  obtain ⟨a, run⟩ := answers
  rw [run]
  exact avoids_ok a

namespace Agreed

variable {host : MacAddress} {s : Radio}

theorem start (h : Radio.Start host s) : Agreed host s := by
  obtain ⟨device, maxNodes, fresh, _, small, run⟩ := h.hosts
  refine ⟨Device.hosting_beginHostingNetwork fresh small run, h.silent host host, ?_⟩
  intro c notHost
  have status : (s.device c).connectionStatus.status = .notConnected := by
    rw [(h.clients c notHost).status]
    rfl
  constructor
  · rw [status]
    nofun
  · intro dst item mem
    rw [h.silent] at mem
    cases mem
  · intro item mem
    rw [h.silent] at mem
    cases mem
  · rw [h.silent]
    exact List.Pairwise.nil
  · intro item mem
    rw [h.silent] at mem
    cases mem
  · intro item mem
    rw [h.silent] at mem
    cases mem
  · intro client
    rw [status] at client
    cases client
  · rintro ⟨item, mem, _⟩
    rw [h.silent] at mem
    cases mem

theorem avoids (h : Agreed host s) {action : Action} (orderly : s.Orderly host action)
    {site : Site} (other : Site.associationResponse ≠ site) : Avoids site (s.step host action) := by
  cases action with
  | connect c networkInfo | disconnect c => exact avoids_ok _
  | receive src dst =>
    unfold Radio.step
    dsimp only
    cases split : s.channel src dst with
    | nil => exact avoids_ok _
    | cons item rest =>
      apply avoids_bind
      · apply Device.receive_avoids other
        intro associationId node frame
        apply avoids_of_answers
        by_cases isHost : dst = host
        · subst isHost
          have roomy := (orderly item rest split).1 rfl
          rw [frame] at roomy
          exact h.hosting.eapolStart_answers roomy
        · exact Device.guest_eapolStart (h.inTouch dst isHost).guest node
      · exact fun _ _ => avoids_ok _

end Agreed

def Radio.Reached (host : MacAddress) : Radio → Prop :=
  Runs.Reachable (Radio.Start host) (fun s action s' => s.step host action = .ok s')
    fun s action => Radio.Enabled host action ∧ s.Orderly host action

/-- As long as a waiting client finds a place and no connecting client takes a frame that
answers another one, the host's books agree, every connected client holds the node id the
host recorded for it, and no assertion on a full network fires. -/
theorem uds_nodes_agree {host : MacAddress} {s : Radio} (reached : s.Reached host) :
    Hosting (s.device host) ∧
    (∀ c, c ≠ host → (s.device c).connectionStatus.status = .connectedAsClient →
      lookup (s.device host).nodeMap c = some ⟨true, (s.device c).connectionStatus.networkNodeId⟩) ∧
    ∀ action, Radio.Enabled host action → s.Orderly host action →
      Avoids .handleEAPoL (s.step host action) ∧
        Avoids .nextAvailableNodeId (s.step host action) := by
  have agreed : Agreed host s := by
    apply Runs.Reachable.invariant reached
    · exact fun _ => Agreed.start
    · exact fun _ _ _ h allowed run => h.step allowed.1 allowed.2 run
  refine ⟨agreed.hosting, fun c notHost => (agreed.inTouch c notHost).joined, ?_⟩
  intro action _ orderly
  exact ⟨agreed.avoids orderly nofun, agreed.avoids orderly nofun⟩

def blank : Device where
  connectionStatus := .reset .notConnected 0
  networkInfo := ⟨.replicate 6 0, 0, 0⟩
  nodeInfo := []
  nodeMap := []
  currentNode := .empty

def hostAddress : MacAddress := .replicate 6 1

def annaAddress : MacAddress := .replicate 6 2

def bertAddress : MacAddress := .replicate 6 3

def cafe : Radio where
  device address :=
    if address = hostAddress then
      match blank.beginHostingNetwork hostAddress 2 with
      | .ok device => device
      | .error _ => blank
    else blank
  session _ := 0
  channel _ _ := []

def beacon : NetworkInfo := ⟨hostAddress, 1, 2⟩

theorem cafe_start : Radio.Start hostAddress cafe where
  hosts := ⟨blank, 2, ⟨rfl, rfl⟩, by decide, by decide, rfl⟩
  clients c differ := by
    show Device.Initialized (if c = hostAddress then _ else blank)
    rw [if_neg differ]
    exact ⟨rfl, rfl⟩
  silent _ _ := rfl

def bothJoin : List Action :=
  [.connect annaAddress beacon, .connect bertAddress beacon,
    .receive annaAddress hostAddress, .receive bertAddress hostAddress,
    .receive hostAddress annaAddress, .receive hostAddress annaAddress,
    .receive hostAddress bertAddress, .receive hostAddress bertAddress,
    .receive annaAddress hostAddress,
    .receive hostAddress bertAddress, .receive hostAddress bertAddress]

def Radio.run (host : MacAddress) (s : Radio) (actions : List Action) : Exec Radio :=
  actions.foldlM (Radio.step host) s

theorem Radio.reachable_run {host : MacAddress} {s s' : Radio} {actions : List Action}
    (enabled : ∀ action ∈ actions, Radio.Enabled host action)
    (reached : Runs.Reachable (Radio.Start host) (fun s action s' => s.step host action = .ok s')
      (fun _ action => Radio.Enabled host action) s) (run : s.run host actions = .ok s') :
    Runs.Reachable (Radio.Start host) (fun s action s' => s.step host action = .ok s')
      (fun _ action => Radio.Enabled host action) s' := by
  induction actions generalizing s with
  | nil =>
    cases run
    exact reached
  | cons action rest ih =>
    obtain ⟨next, first, later⟩ := bind_eq_ok.mp run
    exact ih (fun other mem => enabled other (List.mem_cons_of_mem _ mem))
      (reached.step (enabled action (List.mem_cons_self ..)) first) later

def stop {α : Type} : Exec α → Option Fault
  | .ok _ => none
  | .error fault => some fault

/-- Bert takes the frame that answers anna, and his own EAPoL-Start finds the network full. -/
theorem both_clients_join :
    ∃ s, Runs.Reachable (Radio.Start hostAddress)
        (fun s action s' => s.step hostAddress action = .ok s')
        (fun _ action => Radio.Enabled hostAddress action) s ∧
      (s.device bertAddress).connectionStatus.status = .connectedAsClient ∧
      lookup (s.device hostAddress).nodeMap bertAddress ≠
        some ⟨true, (s.device bertAddress).connectionStatus.networkNodeId⟩ ∧
      stop (s.step hostAddress (.receive bertAddress hostAddress)) =
        some (.assertion .handleEAPoL) := by
  have outcome : (cafe.run hostAddress bothJoin).toOption.map
      (fun s => ((s.device bertAddress).connectionStatus.status,
        (s.device bertAddress).connectionStatus.networkNodeId,
        lookup (s.device hostAddress).nodeMap bertAddress,
        stop (s.step hostAddress (.receive bertAddress hostAddress)))) =
      some (.connectedAsClient, 2, some ⟨false, 0⟩, some (.assertion .handleEAPoL)) := by
    decide +kernel
  cases run : cafe.run hostAddress bothJoin with
  | error fault =>
    rw [run] at outcome
    cases outcome
  | ok s =>
    rw [run] at outcome
    simp only [Except.toOption, Option.map_some, Option.some.injEq, Prod.mk.injEq] at outcome
    obtain ⟨status, nodeId, entry, fault⟩ := outcome
    have enabled : ∀ action ∈ bothJoin, Radio.Enabled hostAddress action := by
      simp only [bothJoin, List.forall_mem_cons]
      refine ⟨?_, ?_, ?_⟩
      · exact (by decide : annaAddress ≠ hostAddress)
      · exact (by decide : bertAddress ≠ hostAddress)
      · simp [Radio.Enabled]
    refine ⟨s, Radio.reachable_run enabled (.start cafe_start) run, status, ?_, fault⟩
    rw [entry]
    rintro ⟨⟩

theorem uds_nodes_agree_anna :
    ∃ s : Radio, (s.device annaAddress).connectionStatus.status = .connectedAsClient ∧
      lookup (s.device hostAddress).nodeMap annaAddress =
        some ⟨true, (s.device annaAddress).connectionStatus.networkNodeId⟩ ∧
      (s.device hostAddress).connectionStatus.totalNodes = 2 := by
  have toHost (P : Prop) (same : hostAddress ≠ hostAddress) : P := absurd rfl same
  have toAnna (P : Prop) (same : annaAddress = hostAddress) : P := absurd same (by decide)
  have start : cafe.Reached hostAddress := .start cafe_start
  have asked : Radio.Reached hostAddress _ := start.step
    (a := .connect annaAddress beacon) ⟨(by decide : annaAddress ≠ hostAddress), trivial⟩ rfl
  have known : Radio.Reached hostAddress _ := asked.step (a := .receive annaAddress hostAddress)
    ⟨trivial, fun item rest split => by cases split; exact ⟨fun _ => trivial, toHost _⟩⟩ rfl
  have second : Radio.Reached hostAddress _ := known.step (a := .receive hostAddress annaAddress)
    ⟨trivial, fun item rest split => by cases split; exact ⟨toAnna _, fun _ _ => nofun⟩⟩ rfl
  have associated : Radio.Reached hostAddress _ := second.step
    (a := .receive hostAddress annaAddress)
    ⟨trivial, fun item rest split => by cases split; exact ⟨toAnna _, fun _ _ => nofun⟩⟩ rfl
  have placed : Radio.Reached hostAddress _ := associated.step
    (a := .receive annaAddress hostAddress)
    ⟨trivial, fun item rest split => by cases split; exact ⟨fun _ _ _ => nofun, toHost _⟩⟩ rfl
  have listed : Radio.Reached hostAddress _ := placed.step (a := .receive hostAddress annaAddress)
    ⟨trivial, fun item rest split => by cases split; exact ⟨toAnna _, fun _ _ => nofun⟩⟩ rfl
  have joined : Radio.Reached hostAddress _ := listed.step (a := .receive hostAddress annaAddress)
    ⟨trivial, fun item rest split => by cases split; exact ⟨toAnna _, fun _ _ _ => rfl⟩⟩ rfl
  have agreed := (uds_nodes_agree joined).2.1 annaAddress (by decide) rfl
  exact ⟨_, rfl, agreed, rfl⟩

end EmuThreeDS.Uds
