import Tidemark.Daemon.Call
import Tidemark.Proofs.Retry.Staffing
import Tidemark.Proofs.Shard.Apart
import Tidemark.Proofs.Shard.Steering

/-!
# Who posts commands to a daemon

The consumers of a daemon and those who report failures from outside post commands to the block of
its supervisor. Whatever they and the tasks of the block do, the block is attended by them
(`Daemon.Attended`), so that it can come to rest.
-/

namespace Tidemark

variable {L π : Type}

/-- Someone who posts a command. -/
abbrev CommandPost := Retry.Posting Command Command

/-- The post of a report. A report that was dealt with has none that is of interest. -/
def Reporting.post : Reporting → CommandPost
  | .posting _ p => p
  | .done _ => .done (.ok ())

/-- The post of a consumer. -/
def Consumer.post (c : Consumer) : CommandPost := c.report?.elim (.done (.ok ())) (·.post)

/-- A consumer that waits for a place in the queue reports a failure. -/
theorem Consumer.stage_of_ticket {c : Consumer} {ticket : ℕ} (h : ticket ∈ c.post.tickets) :
    ∃ i k item, c.stage = .reporting i (.posting k (.waiting item ticket)) := by
  unfold post report? at h
  split at h
  next i r hstage =>
    rcases r with ⟨k, p⟩ | outcome
    · cases p with
      | waiting item ticket' =>
        obtain rfl := List.mem_singleton.mp h
        exact ⟨i, k, item, hstage⟩
      | _ => cases h
    · cases h
  next => cases h

/-- The post of a call. -/
def DaemonCall.post : DaemonCall → CommandPost
  | .reporting r => r.post
  | _ => .done (.ok ())

/-- Nobody waits who has just reported a failure. -/
theorem Supervisor.tickets_report (s : Supervisor) (m : Metrics) (shard : String) (e : Failure) :
    (s.report m shard e).1.post.tickets = [] := by
  unfold report
  split
  · rfl
  · dsimp only
    split <;> rfl

/-- A report that is carried on does what someone does who posts a command for the workers. -/
theorem Reporting.Queues.step_goes {r : Reporting} (h : r.Queues) (s : Supervisor) (m : Metrics)
    (now : Moment) :
    r.post.Goes s.commands (r.step s m now).1.post (r.step s m now).2.1.commands := by
  cases r with
  | done outcome => exact .ended _ _
  | posting k p =>
    cases p with
    | trying item => exact h.elim
    | calling item call due => exact h.elim
    | sending item => exact .sends item
    | waiting item ticket =>
      simp only [Reporting.step, Retry.Posting.step]
      split_ifs with hgranted
      · exact .enters hgranted
      · exact .waits hgranted
    | done outcome => exact .ended _ _

/-- With a step of a consumer, nothing is posted and nobody waits, or the consumer has a turn as
someone who posts a command for the workers. -/
theorem Consumer.Reports.goes {c c' : Consumer} {s : Surroundings L} {now : Moment}
    {apart : Policy × CommandBlock} (h : c.Reports s now c' apart) (htidy : c.Tidy) :
    apart.2 = s.supervisor.commands ∧ c.post.tickets = [] ∧ c'.post.tickets = [] ∨
      c.post.Goes s.supervisor.commands c'.post apart.2 := by
  cases h with
  | nothing hc hafter =>
    refine .inl ⟨rfl, ?_, ?_⟩
    · unfold post
      rcases hreport : c.report? with _ | ⟨k, post⟩ | outcome
      · rfl
      · exact absurd hreport (hc k post)
      · rfl
    · rw [post, hafter]
      rfl
  | @begins i e hc hafter =>
    refine .inl ⟨rfl, ?_, ?_⟩
    · rw [post, report?, hc]
      rfl
    · rw [post, hafter]
      exact s.supervisor.tickets_report _ _ e
  | @carriesOn r hc hafter =>
    have hqueues : r.Queues := by
      unfold report? at hc
      unfold Tidy at htidy
      split at hc
      · next hstage =>
        rw [hstage] at htidy
        exact Option.some.inj hc ▸ htidy
      · cases hc
    right
    rw [post, hc, post, hafter]
    exact hqueues.step_goes s.supervisor _ now

/-- A call from outside reports a failure, and leaves its command to the workers. -/
def DaemonCall.Reports : DaemonCall → Prop
  | .reporting r => r.Queues
  | .reported _ => True
  | _ => False

/-- A step of a report changes the supervisor at most. Nothing is posted and nobody waits, or the
report has a turn as someone who posts a command for the workers. -/
theorem DaemonCall.Reports.step [EventLog L] [Projection π] {report : DaemonCall}
    (h : report.Reports) (d : Daemon L π) (now : Moment) :
    ∃ report' supervisor commons,
      report.step d now = (report', { d with supervisor := supervisor, commons := commons }) ∧
        report'.Reports ∧ (d.supervisor = none → supervisor = none) ∧
          ∀ s ∈ d.supervisor, ∃ s' ∈ supervisor,
            s'.commands = s.commands ∧ report.post.tickets = [] ∧ report'.post.tickets = [] ∨
              report.post.Goes s.commands report'.post s'.commands := by
  cases report with
  | reporting r =>
    cases r with
    | done outcome =>
      exact ⟨_, _, _, rfl, trivial, id, fun s hs => ⟨s, hs, .inl ⟨rfl, rfl, rfl⟩⟩⟩
    | posting k p =>
      simp only [DaemonCall.step]
      split
      next hs =>
        exact ⟨_, d.supervisor, d.commons, rfl, h, id, fun s hs' => by cases hs.symm.trans hs'⟩
      next s hs =>
        refine ⟨_, _, _, rfl, Reporting.Queues.step h s d.commons.metrics now, fun hnone => ?_,
          fun s' hs' => ?_⟩
        · cases hs.symm.trans hnone
        · obtain rfl := Option.some.inj (hs.symm.trans hs')
          exact ⟨_, rfl, .inr (Reporting.Queues.step_goes h s d.commons.metrics now)⟩
  | reported outcome =>
    exact ⟨_, _, _, rfl, trivial, id, fun s hs => ⟨s, hs, .inl ⟨rfl, rfl, rfl⟩⟩⟩
  | _ => exact h.elim

/-! ## Turns -/

/-- What a step of a task does to the block of commands and to the posts of the consumers. -/
inductive CommandTurn (b : CommandBlock) (posts : List CommandPost) :
    DaemonTask → CommandBlock → List CommandPost → Prop where
  /-- The agent leaves the commands alone. -/
  | agent (task : AgentTask) : CommandTurn b posts (.agent task) b posts
  /-- There is no such consumer. -/
  | absent {k : ℕ} (hk : posts[k]? = none) : CommandTurn b posts (.consumer k) b posts
  /-- A consumer neither waits nor begins to wait. -/
  | idles {k : ℕ} {p q : CommandPost} (hp : posts[k]? = some p) (hbefore : p.tickets = [])
    (hafter : q.tickets = []) : CommandTurn b posts (.consumer k) b (posts.set k q)
  /-- A consumer has a turn as someone who posts. -/
  | posts {k : ℕ} {p q : CommandPost} {b' : CommandBlock} (hp : posts[k]? = some p)
    (h : p.Goes b q b') : CommandTurn b posts (.consumer k) b' (posts.set k q)
  /-- The dispatcher has a turn. -/
  | dispatcher : CommandTurn b posts .dispatcher b.stepDispatcher posts
  /-- A worker has a turn. -/
  | worker (m : Metrics) (k : ℕ) (now : Moment) (shards : Registry) :
    CommandTurn b posts (.worker k) (b.stepWorker Supervisor.commandHandler m k now shards).1 posts

/-- A task with the next turn of which less is left to do. -/
def Awaited (b : CommandBlock) (posts : List CommandPost) : DaemonTask → Prop
  | .agent _ => False
  | .consumer k => ∃ p, posts[k]? = some p ∧ ∃ ticket ∈ p.tickets, ticket ∈ b.granted
  | .dispatcher => b.dispatcherWait = .ready
  | .worker k => (b.worker? k).isSome

/-- Who is awaited depends on what all wait for. -/
theorem Awaited.of_tickets {b : CommandBlock} {posts posts' : List CommandPost} {task : DaemonTask}
    (h : posts'.map (·.tickets) = posts.map (·.tickets)) (ha : Awaited b posts task) :
    Awaited b posts' task := by
  cases task with
  | agent => exact ha
  | consumer k =>
    obtain ⟨p, hp, ticket, hticket, hgranted⟩ := ha
    have hk : (posts'.map (·.tickets))[k]? = some p.tickets := by
      rw [h, List.getElem?_map, hp]
      rfl
    obtain ⟨q, hq, htickets⟩ := Option.map_eq_some_iff.mp (List.getElem?_map ▸ hk)
    exact ⟨q, hq, ticket, htickets ▸ hticket, hgranted⟩
  | dispatcher => exact ha
  | worker => exact ha

/-- Somebody is awaited as long as a closed block is not drained. -/
theorem Awaited.exists_of_undrained {b : CommandBlock} {posts : List CommandPost}
    (hb : b.Attended posts) (hclosed : b.isOpen = false) (hleft : b.isDrained = false) :
    ∃ task, Awaited b posts task := by
  rcases hb.staffed.busy_of_undrained hb.lined hclosed hleft with hready | ⟨k, hk⟩ | hgranted
  · exact ⟨.dispatcher, hready⟩
  · exact ⟨.worker k, hk⟩
  · obtain ⟨ticket, hticket⟩ := List.exists_mem_of_ne_nil _ hgranted
    have hmem : ticket ∈ posts.flatMap Retry.Posting.tickets :=
      hb.lined.tickets.mem_iff.mp (List.mem_append_left _ hticket)
    obtain ⟨p, hp, hwaits⟩ := List.mem_flatMap.mp hmem
    obtain ⟨k, hk⟩ := List.mem_iff_getElem?.mp hp
    exact ⟨.consumer k, p, hk, ticket, hwaits, hticket⟩

namespace CommandTurn

variable {b b' : CommandBlock} {posts posts' others : List CommandPost} {task : DaemonTask}

/-- A step of a task leaves the block attended. -/
theorem attended (h : CommandTurn b posts task b' posts') (hb : b.Attended (posts ++ others)) :
    b'.Attended (posts' ++ others) := by
  have hset {k : ℕ} {p : CommandPost} (hp : posts[k]? = some p) (q : CommandPost) :
      posts.set k q ++ others = (posts ++ others).set k q ∧ (posts ++ others)[k]? = some p := by
    have hk := (List.getElem?_eq_some_iff.mp hp).1
    exact ⟨(List.set_append_left _ _ hk).symm, (List.getElem?_append_left hk).trans hp⟩
  cases h with
  | agent | absent => exact hb
  | @idles k p q hp hbefore hafter =>
    rw [(hset hp q).1]
    exact hb.idles (hset hp q).2 hbefore hafter
  | @posts k p q b' hp h =>
    rw [(hset hp q).1]
    exact hb.turn (hset hp q).2 h
  | dispatcher => exact hb.stepDispatcher
  | worker m k now shards => exact hb.stepWorker _ m k now shards

/-- A step of a task does not open the block. -/
theorem closed (h : CommandTurn b posts task b' posts') (hclosed : b.isOpen = false) :
    b'.isOpen = false := by
  cases h with
  | agent | absent | idles => exact hclosed
  | posts hp h => exact h.unswitched.isOpen.trans hclosed
  | dispatcher => exact b.stepDispatcher_spares.1.isOpen.trans hclosed
  | worker m k now shards =>
    cases hk : b.worker? k with
    | none =>
      unfold Retry.Block.stepWorker
      rw [hk]
      exact hclosed
    | some w =>
      obtain ⟨tally, w', hstep, -⟩ := b.stepWorker_goOn Supervisor.commandHandler m hk now shards
      rw [hstep]
      cases w' <;> exact hclosed

/-- Someone who keeps what there is to wait for changes nothing of what all wait for. -/
theorem tickets_set {k : ℕ} {p q : CommandPost} (hp : posts[k]? = some p)
    (h : q.tickets = p.tickets) : (posts.set k q).map (·.tickets) = posts.map (·.tickets) := by
  obtain ⟨hk, rfl⟩ := List.getElem?_eq_some_iff.mp hp
  rw [List.map_set, h, ← List.map_set, List.set_getElem_self]

/-- Once the block is closed, a step of a task leaves less to do, or it changes nothing that matters
to the block and is not the step of someone who is awaited. -/
theorem burden (h : CommandTurn b posts task b' posts') (hb : b.Attended posts)
    (hclosed : b.isOpen = false) :
    b'.burden posts' < b.burden posts ∨
      b' = b ∧ posts'.map (·.tickets) = posts.map (·.tickets) ∧
        b'.burden posts' = b.burden posts ∧ ¬ Awaited b posts task := by
  cases h with
  | agent => exact .inr ⟨rfl, rfl, rfl, id⟩
  | absent hk =>
    refine .inr ⟨rfl, rfl, rfl, ?_⟩
    rintro ⟨p, hp, -⟩
    rw [hk] at hp
    cases hp
  | @idles k p q hp hbefore hafter =>
    right
    refine ⟨rfl, tickets_set hp (hafter.trans hbefore.symm), ?_, ?_⟩
    · obtain ⟨rest, hsum, hset⟩ := Retry.sum_map_set (Retry.Posting.load b.maximumAttempts) hp
      unfold Retry.Block.burden
      rw [hset, hsum, q.load_of_tickets hafter, p.load_of_tickets hbefore]
    · rintro ⟨p', hp', ticket, hticket, -⟩
      obtain rfl := Option.some.inj (hp.symm.trans hp')
      rw [hbefore] at hticket
      cases hticket
  | @posts k p q b' hp h =>
    obtain ⟨rest, hsum, hset⟩ := Retry.sum_map_set (Retry.Posting.load b.maximumAttempts) hp
    unfold Retry.Block.burden
    rw [h.unswitched.limit, hset q, hsum]
    -- A closed block takes in nothing, so whoever posts either gets nowhere or has less to post.
    rcases h.load_le hclosed with ⟨rfl, htickets, hload, hnot⟩ | hless
    · right
      refine ⟨rfl, tickets_set hp htickets, by rw [hload], ?_⟩
      rintro ⟨p', hp', ticket, hticket, hgranted⟩
      obtain rfl := Option.some.inj (hp.symm.trans hp')
      exact hnot ticket hticket hgranted
    · left
      omega
  | dispatcher =>
    by_cases hready : b.dispatcherWait = .ready
    · left
      have hless := Retry.Block.effort_stepDispatcher hready
      unfold Retry.Block.burden
      rw [b.stepDispatcher_spares.1.limit]
      omega
    · rw [Retry.Block.stepDispatcher_eq hready]
      exact .inr ⟨rfl, rfl, rfl, hready⟩
  | worker m k now shards =>
    unfold Retry.Block.burden
    cases hk : b.worker? k with
    | none =>
      right
      have hsame : (b.stepWorker Supervisor.commandHandler m k now shards).1 = b := by
        unfold Retry.Block.stepWorker
        rw [hk]
      rw [hsame]
      exact ⟨rfl, rfl, rfl, by simp [Awaited, hk]⟩
    | some w =>
      left
      obtain ⟨tally, w', hstep, hless⟩ :=
        b.stepWorker_goOn Supervisor.commandHandler m hk now shards
      have heffort := Retry.Block.effort_goOn hb.staffed.keys hk tally hless
      have hlimit : (b.goOn k tally w').maximumAttempts = b.maximumAttempts := by cases w' <;> rfl
      rw [hstep, hlimit]
      omega

end CommandTurn

/-! ## Daemons -/

namespace Daemon

/-- The posts of the consumers. -/
def posts (d : Daemon L π) : List CommandPost := d.consumers.map (·.post)

/-- The consumers of a daemon have their projections, do as they should and, with some others,
attend the block of the supervisor. -/
structure Attended (d : Daemon L π) (others : List CommandPost) : Prop where
  commands : ∀ s ∈ d.supervisor, s.commands.Attended (d.posts ++ others)
  consumers : d.supervisor = none → d.consumers = []
  projections : d.consumers.length ≤ d.projections.length
  tidy : ∀ c ∈ d.consumers, c.Tidy

variable {d d' : Daemon L π} {others others' : List CommandPost}

/-- A daemon whose consumers are left alone is attended if its block of commands is. -/
theorem Attended.of_commands (h : d.Attended others) (hconsumers : d'.consumers = d.consumers)
    (hprojections : d.projections.length ≤ d'.projections.length)
    (hnone : d'.supervisor = none → d.supervisor = none)
    (hcommands : ∀ s' ∈ d'.supervisor, ∃ s ∈ d.supervisor,
      s.commands.Attended (d.posts ++ others) → s'.commands.Attended (d.posts ++ others')) :
    d'.Attended others' where
  commands s' hs' := by
    obtain ⟨s, hs, hattended⟩ := hcommands s' hs'
    rw [posts, hconsumers]
    exact hattended (h.commands s hs)
  consumers hnone' := hconsumers.trans (h.consumers (hnone hnone'))
  projections := hconsumers ▸ h.projections.trans hprojections
  tidy := hconsumers ▸ h.tidy

/-- Whatever leaves the supervisor and the consumers alone leaves a daemon attended. -/
theorem Attended.of_same (h : d.Attended others) (hsupervisor : d'.supervisor = d.supervisor)
    (hconsumers : d'.consumers = d.consumers)
    (hprojections : d.projections.length ≤ d'.projections.length) : d'.Attended others :=
  h.of_commands hconsumers hprojections (hsupervisor ▸ id) fun s' hs' =>
    ⟨s', hsupervisor ▸ hs', id⟩

/-- Whoever is awaited is ready sooner or later. -/
theorem exists_ready {s : Supervisor} (hs : d.supervisor = some s) {task : DaemonTask}
    (h : Awaited s.commands d.posts task) : ∃ now, d.wait now task = .ready := by
  cases task with
  | agent => exact h.elim
  | consumer k =>
    obtain ⟨p, hp, ticket, hticket, hgranted⟩ := h
    obtain ⟨c, hc, rfl⟩ := Option.map_eq_some_iff.mp (List.getElem?_map ▸ hp)
    obtain ⟨i, k', item, hstage⟩ := c.stage_of_ticket hticket
    refine ⟨0, ?_⟩
    simp [wait, hs, hc, Consumer.wait, hstage, Reporting.wait, Retry.Posting.wait, Wait.for,
      surroundings, hgranted]
  | dispatcher =>
    refine ⟨0, ?_⟩
    simp only [wait, hs]
    exact h
  | worker k =>
    obtain ⟨now, hready⟩ := Retry.Block.exists_worker_ready h
    refine ⟨now, ?_⟩
    simp only [wait, hs]
    exact hready

variable [EventLog L] [Projection π]

/-- What a step of a task does to the block of commands. -/
theorem command_turn (d : Daemon L π) (htidy : ∀ c ∈ d.consumers, c.Tidy)
    (hprojections : d.consumers.length ≤ d.projections.length) {s : Supervisor}
    (hs : d.supervisor = some s) (now : Moment) (task : DaemonTask) :
    ∃ s', (d.step now task).supervisor = some s' ∧
      CommandTurn s.commands d.posts task s'.commands (d.step now task).posts := by
  cases task with
  | agent task => exact ⟨s, hs, .agent task⟩
  | consumer k =>
    simp only [step, stepConsumer, hs]
    cases hc : d.consumers[k]? with
    | none =>
      refine ⟨s, hs, .absent ?_⟩
      rw [posts, List.getElem?_map, hc]
      rfl
    | some c =>
      have hk : k < d.projections.length :=
        (List.getElem?_eq_some_iff.mp hc).1.trans_le hprojections
      rw [List.getElem?_eq_getElem hk]
      have hpost : d.posts[k]? = some c.post := by
        rw [posts, List.getElem?_map, hc]
        rfl
      have hset (c' : Consumer) : (d.consumers.set k c').map (·.post) = d.posts.set k c'.post :=
        List.map_set
      refine ⟨_, rfl, ?_⟩
      simp only [posts, hset]
      have hgoes := (c.step_reports (d.surroundings s) d.projections[k] now).goes
        (htidy c (List.mem_of_getElem? hc))
      rcases hgoes with ⟨hsame, hbefore, hafter⟩ | hturn
      · rw [show (c.step _ (d.surroundings s) now).2.2.supervisor.commands = s.commands from hsame]
        exact .idles hpost hbefore hafter
      · exact .posts hpost hturn
  | dispatcher =>
    refine ⟨s.stepDispatcher, ?_, .dispatcher⟩
    simp only [step, hs, Option.map_some]
  | worker k =>
    simp only [step, hs]
    exact ⟨_, rfl, .worker _ k now s.shards⟩

/-- A step of a task gives a daemon no supervisor and no consumers, and keeps the consumers tidy. -/
theorem consumers_step (d : Daemon L π) (now : Moment) (task : DaemonTask) :
    (d.supervisor = none → (d.step now task).supervisor = none) ∧
      (d.step now task).consumers.length = d.consumers.length ∧
        (d.step now task).projections.length = d.projections.length ∧
          ((∀ c ∈ d.consumers, c.Tidy) → ∀ c ∈ (d.step now task).consumers, c.Tidy) := by
  have hsame (d' : Daemon L π) (hnone : d.supervisor = none → d'.supervisor = none)
      (hconsumers : d'.consumers = d.consumers) (hprojections : d'.projections = d.projections) :
      (d.supervisor = none → d'.supervisor = none) ∧ d'.consumers.length = d.consumers.length ∧
        d'.projections.length = d.projections.length ∧
          ((∀ c ∈ d.consumers, c.Tidy) → ∀ c ∈ d'.consumers, c.Tidy) :=
    ⟨hnone, congrArg _ hconsumers, congrArg _ hprojections, hconsumers ▸ id⟩
  cases task with
  | agent task => exact hsame _ id rfl rfl
  | consumer k =>
    simp only [step, stepConsumer]
    split
    next s c p hs hc hp =>
      refine ⟨fun hnone => ?_, List.length_set, List.length_set, fun htidy c' hc' => ?_⟩
      · rw [hs] at hnone
        cases hnone
      · rcases List.mem_or_eq_of_mem_set hc' with hmem | rfl
        · exact htidy c' hmem
        · exact (c.step_steers _ p (htidy c (List.mem_of_getElem? hc)) now).tidy
    next => exact hsame d id rfl rfl
  | dispatcher => exact hsame _ (fun hnone => Option.map_eq_none_iff.mpr hnone) rfl rfl
  | worker k =>
    simp only [step]
    split
    next s hs => exact hsame _ (fun hnone => by cases hs.symm.trans hnone) rfl rfl
    next => exact hsame d id rfl rfl

/-- A step of a task leaves a daemon attended. -/
theorem Attended.step (h : d.Attended others) (now : Moment) (task : DaemonTask) :
    (d.step now task).Attended others := by
  obtain ⟨hnone, hconsumers, hprojections, htidy⟩ := d.consumers_step now task
  refine ⟨fun s' hs' => ?_, fun hnone' => ?_, ?_, htidy h.tidy⟩
  · cases hs : d.supervisor with
    | none =>
      rw [hnone hs] at hs'
      cases hs'
    | some s =>
      obtain ⟨s'', hs'', hturn⟩ := d.command_turn h.tidy h.projections hs now task
      obtain rfl := Option.some.inj (hs'.symm.trans hs'')
      exact hturn.attended (h.commands s hs)
  · cases hs : d.supervisor with
    | none =>
      rw [h.consumers hs, List.length_nil] at hconsumers
      exact List.eq_nil_of_length_eq_zero hconsumers
    | some s =>
      obtain ⟨s'', hs'', -⟩ := d.command_turn h.tidy h.projections hs now task
      rw [hs''] at hnone'
      cases hnone'
  · rw [hconsumers, hprojections]
    exact h.projections

/-- A step of a task leaves the state of a daemon alone. -/
theorem state_step (d : Daemon L π) (now : Moment) (task : DaemonTask) :
    (d.step now task).state = d.state := by
  cases task with
  | agent task => rfl
  | consumer k =>
    simp only [step, stepConsumer]
    split <;> rfl
  | dispatcher => rfl
  | worker k =>
    simp only [step]
    split <;> rfl

end Daemon

end Tidemark
