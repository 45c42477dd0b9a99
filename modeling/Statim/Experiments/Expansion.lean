import Statim.Experiments.Decimals
import Statim.Experiments.Observations
import Statim.Experiments.Points

/-!
# The expansion

Registering runs one after the other groups the requests by their identity: a job stands
for all requests with its target and arguments, whatever their order.  So the jobs of an
experiment are exactly the points of its axes, and no run is registered twice.
-/

namespace Statim.Experiments

open Support Parameter FloatArithmetic

/-! ## Lists without duplicates -/

theorem mem_fromkeys {l : List String} {x : String} : x ∈ fromkeys l ↔ x ∈ l := by
  rw [fromkeys, Dictionary.mem_keys_ofList, List.map_map]
  simp

theorem nodup_fromkeys (l : List String) : (fromkeys l).Nodup :=
  (Dictionary.ofList (l.map fun x => (x, ()))).nodup

/-- The identity determines the target and the arguments. -/
theorem identity_inj {target target' : String} {argv argv' : List String}
    {independent independent' : Option ℤ}
    (h : identity target argv independent = identity target' argv' independent') :
    target = target' ∧ argv = argv' := by
  simp only [identity, List.cons_append, List.append_assoc] at h
  have hlists := (List.cons.inj (String.ofList_inj.mp h)).2
  obtain ⟨rfl, hrest⟩ := JsonText.quote_append_inj hlists
  obtain ⟨rfl, -⟩ := JsonText.strings_append_inj (List.cons.inj hrest).2
  exact ⟨rfl, rfl⟩

variable {φ : Type} {sha256 : String → String} {requests : List (Request φ)} {jobs jobs' : Jobs φ}
  {request : Request φ}

/-! ## Registering one run -/

/-- A job stands for the requests with its identity; it is the run of the first one. -/
structure Stands (sha256 : String → String) (requests : List (Request φ)) (key : String)
    (job : Job φ) : Prop where
  origin : ∃ request ∈ requests, request.identity = key ∧
    job.toRun = (newJob request job.name).toRun ∧
    job.name = jobName sha256 request ∧ job.id = request.run.family.text ++ "/" ++ job.name
  experiments : ∀ label, label ∈ job.experiments ↔
    ∃ request ∈ requests, request.identity = key ∧ request.experiment = label
  views : ∀ view, view ∈ job.analysisViews ↔
    ∃ request ∈ requests, request.identity = key ∧ view ∈ request.views
  distinct : job.analysisViews.Nodup

/-- The registered jobs stand for the requests, and no two have the same name. -/
structure Registered (sha256 : String → String) (requests : List (Request φ)) (jobs : Jobs φ) :
    Prop where
  stands : ∀ key job, (key, job) ∈ jobs.entries → Stands sha256 requests key job
  found : ∀ request ∈ requests, request.identity ∈ jobs.keys
  names : (jobs.entries.map fun e => e.2.name).Nodup

theorem registered_nil (sha256 : String → String) :
    Registered sha256 ([] : List (Request φ)) Dictionary.empty :=
  ⟨fun _ _ h => (nomatch h), fun _ h => (nomatch h), List.nodup_nil⟩

/-- A request with another identity changes nothing for a job. -/
theorem Stands.append {key : String} {job : Job φ} (h : Stands sha256 requests key job)
    (hne : request.identity ≠ key) : Stands sha256 (requests ++ [request]) key job := by
  have hsame : ∀ P : Request φ → Prop,
      (∃ r ∈ requests ++ [request], r.identity = key ∧ P r) ↔
        ∃ r ∈ requests, r.identity = key ∧ P r := by
    intro P
    constructor
    · rintro ⟨r, hmem, hkey, hr⟩
      rcases List.mem_append.mp hmem with hmem | hmem
      · exact ⟨r, hmem, hkey, hr⟩
      · obtain rfl := List.mem_singleton.mp hmem
        exact absurd hkey hne
    · rintro ⟨r, hmem, hr⟩
      exact ⟨r, List.mem_append_left _ hmem, hr⟩
  refine ⟨?_, fun label => ?_, fun view => ?_, h.distinct⟩
  · obtain ⟨r, hmem, hr⟩ := h.origin
    exact ⟨r, List.mem_append_left _ hmem, hr⟩
  · rw [h.experiments label, hsame]
  · rw [h.views view, hsame]

/-- A request with the identity of a job adds its label and its views. -/
theorem Stands.join {job : Job φ} (h : Stands sha256 requests request.identity job) :
    Stands sha256 (requests ++ [request]) request.identity (job.join request) := by
  have hsplit : ∀ P : Request φ → Prop,
      (∃ r ∈ requests ++ [request], r.identity = request.identity ∧ P r) ↔
        (∃ r ∈ requests, r.identity = request.identity ∧ P r) ∨ P request := by
    intro P
    constructor
    · rintro ⟨r, hmem, hkey, hr⟩
      rcases List.mem_append.mp hmem with hmem | hmem
      · exact Or.inl ⟨r, hmem, hkey, hr⟩
      · obtain rfl := List.mem_singleton.mp hmem
        exact Or.inr hr
    · rintro (⟨r, hmem, hr⟩ | hr)
      · exact ⟨r, List.mem_append_left _ hmem, hr⟩
      · exact ⟨request, List.mem_append_right _ (List.mem_singleton_self _), rfl, hr⟩
  refine ⟨?_, fun label => ?_, fun view => ?_, nodup_fromkeys _⟩
  · obtain ⟨r, hmem, hr⟩ := h.origin
    exact ⟨r, List.mem_append_left _ hmem, hr⟩
  · rw [Job.join, mem_fromkeys, List.mem_append, h.experiments label, hsplit, List.mem_singleton,
      eq_comm (a := label)]
  · rw [Job.join, mem_fromkeys, List.mem_append, h.views view, hsplit]

/-- A new job stands for the request that it is made for. -/
theorem stands_newJob (hnew : ∀ r ∈ requests, r.identity ≠ request.identity) :
    Stands sha256 (requests ++ [request]) request.identity
      (newJob request (jobName sha256 request)) := by
  have honly : ∀ P : Request φ → Prop,
      (∃ r ∈ requests ++ [request], r.identity = request.identity ∧ P r) ↔ P request := by
    intro P
    constructor
    · rintro ⟨r, hmem, hkey, hr⟩
      rcases List.mem_append.mp hmem with hmem | hmem
      · exact absurd hkey (hnew r hmem)
      · obtain rfl := List.mem_singleton.mp hmem
        exact hr
    · intro hr
      exact ⟨request, List.mem_append_right _ (List.mem_singleton_self _), rfl, hr⟩
  refine ⟨?_, fun label => ?_, fun view => ?_, nodup_fromkeys _⟩
  · rw [honly]
    exact ⟨rfl, rfl, rfl⟩
  · rw [honly, newJob, List.mem_singleton, eq_comm]
  · rw [honly, newJob, mem_fromkeys]

theorem Registered.includeRun (h : Registered sha256 requests jobs)
    (hinclude : includeRun sha256 jobs request = .ok jobs') :
    Registered sha256 (requests ++ [request]) jobs' := by
  unfold Experiments.includeRun at hinclude
  split at hinclude
  next existing hexisting =>
    obtain rfl := Except.ok.inj hinclude
    have hmem := Dictionary.get?_eq_some_iff.mp hexisting
    have hkey := Dictionary.mem_keys_of_mem hmem
    refine ⟨fun key job hjob => ?_, fun r hr => ?_, ?_⟩
    · rcases Dictionary.mem_entries_insert.mp hjob with ⟨rfl, rfl⟩ | ⟨hne, hold⟩
      · exact (h.stands _ _ hmem).join
      · exact (h.stands key job hold).append (Ne.symm hne)
    · rw [Dictionary.keys_insert_of_mem _ hkey]
      rcases List.mem_append.mp hr with hr | hr
      · exact h.found r hr
      · obtain rfl := List.mem_singleton.mp hr
        exact hkey
    · have hname : (existing.join request).name = existing.name := rfl
      rw [Dictionary.map_insert_of_mem (v := existing.join request) (fun e => e.2.name) hmem hname]
      exact h.names
  next hnone =>
    have hnew := Dictionary.get?_eq_none_iff.mp hnone
    dsimp only at hinclude
    split at hinclude
    · cases hinclude
    next hfree =>
      obtain rfl := Except.ok.inj hinclude
      refine ⟨fun key job hjob => ?_, fun r hr => ?_, ?_⟩
      · rcases Dictionary.mem_entries_insert.mp hjob with ⟨rfl, rfl⟩ | ⟨hne, hold⟩
        · refine stands_newJob fun r hr hsame => hnew ?_
          rw [← hsame]
          exact h.found r hr
        · exact (h.stands key job hold).append (Ne.symm hne)
      · rw [Dictionary.mem_keys_insert]
        rcases List.mem_append.mp hr with hr | hr
        · exact Or.inr (h.found r hr)
        · obtain rfl := List.mem_singleton.mp hr
          exact Or.inl rfl
      · rw [Dictionary.entries_insert_of_notMem _ hnew, List.map_append]
        refine h.names.append (List.nodup_singleton _) (List.disjoint_singleton.mpr ?_)
        intro hmem
        apply hfree
        obtain ⟨e, he, hname⟩ := List.mem_map.mp hmem
        exact List.any_eq_true.mpr
          ⟨e.2, List.mem_map_of_mem he, decide_eq_true hname⟩

/-- Registering all requests. -/
theorem registered_foldlM {rest : List (Request φ)} (h : Registered sha256 requests jobs)
    (hfold : rest.foldlM (includeRun sha256) jobs = .ok jobs') :
    Registered sha256 (requests ++ rest) jobs' := by
  induction rest generalizing requests jobs with
  | nil =>
      obtain rfl := Except.ok.inj hfold
      rw [List.append_nil]
      exact h
  | cons request rest ih =>
      rw [List.foldlM_cons, bind_eq_ok] at hfold
      obtain ⟨next, hinclude, hfold⟩ := hfold
      have hrest := ih (h.includeRun hinclude) hfold
      rw [List.append_assoc] at hrest
      exact hrest

/-- A run is registered if no other run has its name. -/
theorem Registered.includeRun_ok (h : Registered sha256 requests jobs)
    (hnames : ∀ r ∈ requests, jobName sha256 r = jobName sha256 request →
      r.identity = request.identity) :
    ∃ jobs', Experiments.includeRun sha256 jobs request = .ok jobs' := by
  unfold Experiments.includeRun
  split
  · exact ⟨_, rfl⟩
  next hnone =>
    dsimp only
    split
    next htaken =>
      exfalso
      obtain ⟨job, hjob, hname⟩ := List.any_eq_true.mp htaken
      obtain ⟨⟨key, job⟩, hentry, rfl⟩ := List.mem_map.mp hjob
      obtain ⟨r, hmem, rfl, -, hrname, -⟩ := (h.stands key job hentry).origin
      have hsame := hnames r hmem (hrname.symm.trans (of_decide_eq_true hname))
      refine Dictionary.get?_eq_none_iff.mp hnone ?_
      rw [← hsame]
      exact Dictionary.mem_keys_of_mem hentry
    · exact ⟨_, rfl⟩

/-- So are runs of which no two different ones have the same name. -/
theorem foldlM_includeRun_ok {rest : List (Request φ)} (h : Registered sha256 requests jobs)
    (hnames : ∀ r ∈ requests ++ rest, ∀ r' ∈ requests ++ rest,
      jobName sha256 r = jobName sha256 r' → r.identity = r'.identity) :
    ∃ jobs', rest.foldlM (includeRun sha256) jobs = .ok jobs' := by
  induction rest generalizing requests jobs with
  | nil => exact ⟨jobs, rfl⟩
  | cons request rest ih =>
      obtain ⟨next, hinclude⟩ := h.includeRun_ok fun r hr =>
        hnames r (List.mem_append_left _ hr) request (List.mem_append_right _ List.mem_cons_self)
      rw [List.foldlM_cons, hinclude]
      refine ih (h.includeRun hinclude) ?_
      rwa [List.append_assoc]

/-! ## The requests of a configuration -/

/-- The families that run an experiment. -/
def Family.isRun : Family → Bool
  | primary | paths | occupancy => true
  | _ => false

/-- The command line without the generated output prefix. -/
def bareArgv (argv : List String) : List String :=
  argv.filter fun arg => (splitArgument arg).map Prod.fst ≠ some "outputPrefix"

/-- No argument of the run is an output prefix, and the run records its invocation. -/
structure Plain (request : Request φ) : Prop where
  argv : bareArgv request.run.argv = request.run.argv
  invocation : request.run.parameters.get? "invocation" = request.independent.map Scalar.int

/-- Only an occupancy run is changed. -/
theorem newJob_of_ne {request : Request φ} (h : request.run.family ≠ .occupancy) (name : String) :
    (newJob request name).toRun = request.run := by
  rw [newJob]
  exact if_neg h

theorem bareArgv_newJob (h : Plain request) (name : String) :
    bareArgv (newJob request name).argv = request.run.argv := by
  rw [newJob]
  split
  · have hpath : splitArgument (argument "outputPrefix"
        ("\x7bOUTPUT\x7d/data/raw/occupancy/" ++ name)) = some ("outputPrefix", _) :=
      splitArgument_argument _ (by decide)
    dsimp only
    rw [bareArgv, List.filter_append, List.filter_cons_of_neg (by simp [hpath]),
      List.filter_nil, List.append_nil]
    exact h.argv
  · exact h.argv

theorem newJob_family (request : Request φ) (name : String) :
    (newJob request name).family = request.run.family := by
  rw [newJob]
  split_ifs <;> rfl

theorem newJob_target (request : Request φ) (name : String) :
    (newJob request name).target = request.run.target := by
  rw [newJob]
  split_ifs <;> rfl

theorem newJob_parameters (request : Request φ) (name : String) :
    (newJob request name).parameters = request.run.parameters := by
  rw [newJob]
  split_ifs <;> rfl

theorem mem_argv_arguments {options : List (String × String)} {arg : String}
    (h : arg ∈ arguments (Dictionary.ofList options)) :
    ∃ key ∈ options.map Prod.fst, ∃ value, arg = argument key value := by
  obtain ⟨e, he, rfl⟩ := List.mem_map.mp h
  have hentry := (List.perm_insertionSort _ _).mem_iff.mp he
  exact ⟨e.1, Dictionary.mem_keys_ofList.mp (Dictionary.mem_keys_of_mem hentry), e.2, rfl⟩

section Requests

variable [FloatArithmetic φ] {settings : Settings φ} {profile : Profile} {quick : Quick φ}
  {seed : ℤ} {experiment : String} {views : List String}

theorem Point.On.plain {point : Point φ} (hon : point.On settings) :
    Plain ⟨point.run settings profile quick seed, experiment, views, none⟩ := by
  constructor
  · rw [hon.run_argv, bareArgv, List.filter_eq_self]
    intro arg harg
    obtain ⟨key, hkey, value, rfl⟩ := mem_argv_arguments harg
    rw [keys_options] at hkey
    obtain ⟨hplain, hne⟩ := point.kind.plain_optionKeys key hkey
    rw [splitArgument_argument value hplain]
    simpa using hne
  · dsimp only
    rw [hon.run_parameters, Option.map_none, Dictionary.get?_eq_none_iff,
      Dictionary.mem_keys_ofList, keys_parameters]
    exact point.kind.invocation_notMem

theorem Point.On.isRun {point : Point φ} (hon : point.On settings) :
    (point.run settings profile quick seed).family.isRun = true := by
  cases point with
  | kite r f => simp [Point.run, networkRun, hon.1, Family.isRun]
  | statim r f t d p l => simp [Point.run, networkRun, hon.1, Family.isRun]
  | path r f t d p hops join => simp [Point.run, networkRun, hon.1, Family.isRun]
  | occupancy rate delay burst => rfl

theorem checkFamily_isRun (target : String) : (checkFamily target).isRun = false := by
  rw [checkFamily]
  split_ifs
  · rfl
  · rfl
  · rfl

omit [FloatArithmetic φ] in
theorem plain_check (target : String) :
    Plain (⟨checkRun target, experiment, views, none⟩ : Request φ) :=
  ⟨rfl, rfl⟩

/-- The text of an integer is no option. -/
theorem splitArgument_toString (n : ℤ) : splitArgument (toString n) = none := by
  unfold splitArgument
  split
  next rest hlist =>
    exfalso
    cases n with
    | ofNat n =>
        have htext : toString (Int.ofNat n) = n.repr := rfl
        rw [htext, Nat.toList_repr] at hlist
        have hdigit := DecimalText.digits_toDigits n '-' (hlist ▸ List.mem_cons_self)
        exact absurd hdigit (by decide)
    | negSucc n =>
        have htext : toString (Int.negSucc n) = "-" ++ (n + 1).repr := rfl
        rw [htext, String.toList_append, Nat.toList_repr] at hlist
        have hrest : Nat.toDigits 10 (n + 1) = '-' :: rest := (List.cons.inj hlist).2
        have hdigit := DecimalText.digits_toDigits (n + 1) '-' (hrest ▸ List.mem_cons_self)
        exact absurd hdigit (by decide)
  next => rfl

omit [FloatArithmetic φ] in
theorem plain_microbenchmark (config : Config φ) (invocation : ℤ) :
    Plain ⟨microbenchmarkRun (operationCounts config profile) invocation, experiment, views,
      some invocation⟩ := by
  constructor
  · dsimp only
    rw [bareArgv, List.filter_eq_self]
    intro arg harg
    obtain ⟨count, -, rfl⟩ := List.mem_map.mp harg
    rw [splitArgument_toString]
    rfl
  · exact Dictionary.get?_eq_some_iff.mpr (Dictionary.mem_entries_insert.mpr (Or.inl ⟨rfl, rfl⟩))

/-! ## Exact expansion -/

/-- What tells two jobs apart. -/
def Job.key (job : Job φ) : String × List String × Option (Scalar φ) :=
  (job.target, bareArgv job.argv, job.parameters.get? "invocation")

/-- The seeds of a profile: the first one, or all of the range. -/
def IsSeed (settings : Settings φ) (seed : ℤ) : Profile → Prop
  | .quick => seed = integerOf settings seedFirst
  | .full => integerOf settings seedFirst ≤ seed ∧ seed ≤ integerOf settings seedLast

/-- The product of the axes of an experiment and its seeds: targets with their command
lines. -/
def Product (settings : Settings φ) (profile : Profile) (quick : Quick φ) :
    Set (String × List String) :=
  {e | ∃ point : Point φ, point.On settings ∧ ∃ seed, IsSeed settings seed profile ∧
    e = (point.kind.target, point.argv settings profile quick seed)}

/-- The targets and command lines of the jobs that run an experiment. -/
def Covered (jobs : List (Job φ)) (experiment : String) : Set (String × List String) :=
  {e | ∃ job ∈ jobs, job.family.isRun = true ∧ experiment ∈ job.experiments ∧
    e = (job.target, bareArgv job.argv)}

/-- The expansion loses nothing and duplicates nothing. -/
structure Exact (config : Config φ) (profile : Profile) (jobs : List (Job φ)) : Prop where
  distinct : jobs.Pairwise fun a b => a.key ≠ b.key
  ids : (jobs.map Job.id).Nodup
  names : (jobs.map Job.name).Nodup
  covered : ∀ name settings views, config.Enabled name settings views →
    Covered jobs name = Product settings profile config.quick
  views : ∀ job ∈ jobs, job.family.isRun = true → job.analysisViews.Nodup ∧
    ∀ view, view ∈ job.analysisViews ↔ ∃ name settings views,
      config.Enabled name settings views ∧ name ∈ job.experiments ∧
      view ∈ scenarioViews (settings scenario).scalar ++ views

omit [FloatArithmetic φ] in
theorem mem_seeds : seed ∈ seeds settings profile ↔ IsSeed settings seed profile := by
  cases profile with
  | quick => exact List.mem_singleton
  | full =>
      simp only [seeds, IsSeed, List.mem_map, List.mem_range]
      constructor
      · rintro ⟨i, hi, rfl⟩
        omega
      · rintro ⟨hfirst, hlast⟩
        exact ⟨(seed - integerOf settings seedFirst).toNat, by omega, by omega⟩

/-! ## Sources of requests -/

/-- Where a request comes from: a point of an enabled experiment, a supplied check program or
an invocation of the microbenchmark. -/
inductive Source (config : Config φ) (profile : Profile) : Request φ → Prop
  | point {name : String} {settings : Settings φ} {views : List String} {point : Point φ}
      {seed : ℤ} (henabled : config.Enabled name settings views) (hon : point.On settings)
      (hseed : IsSeed settings seed profile) :
      Source config profile ⟨point.run settings profile config.quick seed, name,
        scenarioViews (settings scenario).scalar ++ views, none⟩
  | check {target : String} (hprogram : target ∈ checkPrograms) :
      Source config profile
        ⟨checkRun target, "functional_checks", ["functional_checks"], none⟩
  | microbenchmark (invocation : ℤ) :
      Source config profile ⟨microbenchmarkRun (operationCounts config profile) invocation,
        "software_profile", ["software_operation_cost"], some invocation⟩

variable {config : Config φ}

theorem Source.plain (h : Source config profile request) : Plain request := by
  cases h with
  | point henabled hon hseed => exact hon.plain
  | check hprogram => exact plain_check _
  | microbenchmark invocation => exact plain_microbenchmark config invocation

/-- A request of a run family is a point of an enabled experiment. -/
theorem Source.exists_point (h : Source config profile request)
    (hrun : request.run.family.isRun = true) :
    ∃ settings views, ∃ point : Point φ, ∃ seed,
      config.Enabled request.experiment settings views ∧ point.On settings ∧
      IsSeed settings seed profile ∧ request.run = point.run settings profile config.quick seed ∧
      request.views = scenarioViews (settings scenario).scalar ++ views := by
  cases h with
  | point henabled hon hseed => exact ⟨_, _, _, _, henabled, hon, hseed, rfl, rfl⟩
  | @check target hprogram => exact absurd hrun (by simp [checkRun, checkFamily_isRun])
  | microbenchmark invocation => cases hrun

theorem Point.argv_ne_nil (point : Point φ) :
    point.argv settings profile quick seed ≠ [] := by
  intro hnil
  have hsort := List.map_eq_nil_iff.mp hnil
  have hentries := List.perm_nil.mp (hsort ▸ (List.perm_insertionSort _ _).symm)
  have hkeys := keys_options settings profile quick seed point
  rw [Dictionary.entries_ofList (hkeys ▸ point.kind.nodup_optionKeys)] at hentries
  rw [hentries] at hkeys
  exact absurd hkeys (by cases point.kind <;> decide)

theorem Kind.target_ne_microbenchmark (kind : Kind) : kind.target ≠ "software-microbenchmark" := by
  cases kind <;> decide

/-- Requests with the identity of a point are points themselves. -/
theorem Source.isRun_of_identity {request' : Request φ} (h : Source config profile request)
    (h' : Source config profile request') (hrun : request.run.family.isRun = true)
    (heq : request'.identity = request.identity) : request'.run.family.isRun = true := by
  obtain ⟨settings, views, point, seed, -, hon, -, hpoint, -⟩ := h.exists_point hrun
  obtain ⟨htarget, hargv⟩ := identity_inj heq
  rw [hpoint, hon.run_target] at htarget
  rw [hpoint, hon.run_argv] at hargv
  cases h' with
  | point henabled hon' hseed => exact hon'.isRun
  | check hprogram => exact absurd hargv.symm point.argv_ne_nil
  | microbenchmark invocation => exact absurd htarget.symm point.kind.target_ne_microbenchmark

section Expand

variable [DecidableEq φ] {microbenchmark : Option Bool} {expanded : List (Job φ)}

/-- The jobs of an expansion stand for the requests of the configuration. -/
theorem registered_of_expand
    (h : expand sha256 config profile microbenchmark = .ok expanded) :
    ∃ requests registered, Registered sha256 requests registered ∧
      expanded = registered.values ∧ (∀ request ∈ requests, Source config profile request) ∧
      ∀ name settings views, config.Enabled name settings views → ∀ point : Point φ,
        point.On settings → ∀ seed, IsSeed settings seed profile →
          ⟨point.run settings profile config.quick seed, name,
            scenarioViews (settings scenario).scalar ++ views, none⟩ ∈ requests := by
  unfold expand at h
  simp only [bind_eq_ok] at h
  obtain ⟨_, hvalid, found, hfound, registered, hfold, h⟩ := h
  obtain rfl := Except.ok.inj h
  refine ⟨_, registered, registered_foldlM (registered_nil sha256) hfold, rfl, ?_, ?_⟩
  · intro request hmem
    rw [List.nil_append, List.mem_append, List.mem_append] at hmem
    rcases hmem with (hmem | hmem) | hmem
    · obtain ⟨⟨name, settings, views⟩, hentry, hmem⟩ := List.mem_flatMap.mp hmem
      obtain ⟨run, hrun, rfl⟩ := List.mem_map.mp hmem
      have henabled := (mem_effectiveExperiments hfound).mp hentry
      obtain ⟨point, hon, seed, hseed, rfl⟩ :=
        (mem_runs (typed_of_enabled hfound henabled)).mp hrun
      exact Source.point henabled hon (mem_seeds.mp hseed)
    · unfold checkRequests at hmem
      split_ifs at hmem
      · obtain ⟨target, htarget, rfl⟩ := List.mem_map.mp hmem
        obtain ⟨s, hs, rfl⟩ := programs_of_validateConfig hvalid target htarget
        exact Source.check hs
      · cases hmem
    · unfold microbenchmarkRequests at hmem
      split_ifs at hmem
      · obtain ⟨i, -, rfl⟩ := List.mem_map.mp hmem
        exact Source.microbenchmark _
      · cases hmem
  · intro name settings views henabled point hon seed hseed
    rw [List.nil_append, List.mem_append, List.mem_append]
    refine Or.inl (Or.inl (List.mem_flatMap.mpr ⟨(name, settings, views), ?_, ?_⟩))
    · exact (mem_effectiveExperiments hfound).mpr henabled
    · refine List.mem_map.mpr ⟨_, ?_, rfl⟩
      exact (mem_runs (typed_of_enabled hfound henabled)).mpr
        ⟨point, hon, seed, mem_seeds.mpr hseed, rfl⟩

/-- An accepted configuration expands if no two different runs have the same name. -/
theorem expand_ok {u : Unit} {found : List (String × Settings φ × List String)}
    (hvalid : validateConfig config = .ok u) (hfound : effectiveExperiments config = .ok found)
    (hrequests : experimentRequests config.quick profile found ++ checkRequests config.checks ++
      microbenchmarkRequests config profile microbenchmark = requests)
    (hnames : ∀ r ∈ requests, ∀ r' ∈ requests,
      jobName sha256 r = jobName sha256 r' → r.identity = r'.identity) :
    ∃ expanded, expand sha256 config profile microbenchmark = .ok expanded := by
  obtain ⟨registered, hfold⟩ := foldlM_includeRun_ok (registered_nil sha256) hnames
  refine ⟨registered.values, ?_⟩
  simp only [expand, bind_eq_ok]
  refine ⟨u, hvalid, found, hfound, registered, ?_, rfl⟩
  rw [hrequests]
  exact hfold

end Expand

end Requests

/-! ## The jobs of a configuration -/

/-- The request that a job is made for. -/
theorem Stands.exists_origin {key : String} {job : Job φ} (h : Stands sha256 requests key job)
    (hplain : ∀ request ∈ requests, Plain request) :
    ∃ request ∈ requests, request.identity = key ∧ job.family = request.run.family ∧
      job.key = (request.run.target, request.run.argv, request.independent.map Scalar.int) := by
  obtain ⟨request, hmem, hkey, hrun, -, -⟩ := h.origin
  refine ⟨request, hmem, hkey, ?_, ?_⟩
  · rw [hrun, newJob_family]
  · have hargv := bareArgv_newJob (hplain request hmem) job.name
    rw [Job.key, hrun, hargv, newJob_target, newJob_parameters, (hplain request hmem).invocation]

/-- Registered jobs differ in their keys. -/
theorem Registered.distinct (h : Registered sha256 requests jobs)
    (hplain : ∀ request ∈ requests, Plain request) :
    jobs.values.Pairwise fun a b => a.key ≠ b.key := by
  refine List.pairwise_map.mpr ((List.pairwise_map.mp jobs.nodup).imp_of_mem ?_)
  intro a b ha hb hne heq
  apply hne
  obtain ⟨request, -, hkey, -, hrequest⟩ := (h.stands _ _ ha).exists_origin hplain
  obtain ⟨request', -, hkey', -, hrequest'⟩ := (h.stands _ _ hb).exists_origin hplain
  rw [hrequest, hrequest', Prod.mk.injEq, Prod.mk.injEq] at heq
  obtain ⟨htarget, hargv, hinvocation⟩ := heq
  have hinjective : Function.Injective (Scalar.int : ℤ → Scalar φ) := by
    intro n m hnm
    simpa [Scalar.int] using hnm
  have hindependent := Option.map_injective hinjective hinvocation
  rw [← hkey, ← hkey', Request.identity, Request.identity, htarget, hargv, hindependent]

theorem Family.slash_notMem (family : Family) : '/' ∉ family.text.toList := by
  cases family <;> decide

/-- The identifier determines the name. -/
theorem name_of_id {family family' : Family} {name name' : String}
    (h : family.text ++ "/" ++ name = family'.text ++ "/" ++ name') : name = name' := by
  have hdrop : ∀ (family : Family) (name : String),
      (family.text ++ "/" ++ name).toList.dropWhile (· ≠ '/') = '/' :: name.toList := by
    intro family name
    have hfamily : ∀ c ∈ family.text.toList, decide (c ≠ '/') = true := by
      intro c hc
      refine decide_eq_true fun heq => family.slash_notMem ?_
      rw [← heq]
      exact hc
    rw [String.toList_append, String.toList_append, List.append_assoc,
      List.dropWhile_append_of_pos hfamily]
    rfl
  have hlists := hdrop family name
  rw [h, hdrop family' name'] at hlists
  exact (String.toList_inj.mp (List.cons.inj hlists).2).symm

theorem Registered.nodup_names (h : Registered sha256 requests jobs) :
    (jobs.values.map Job.name).Nodup := by
  rw [Dictionary.values, List.map_map]
  exact h.names

theorem Registered.nodup_ids (h : Registered sha256 requests jobs) :
    (jobs.values.map Job.id).Nodup := by
  rw [Dictionary.values, List.map_map]
  refine h.names.of_map.map_on ?_
  intro a ha b hb heq
  obtain ⟨request, -, -, -, -, hid⟩ := (h.stands _ _ ha).origin
  obtain ⟨request', -, -, -, -, hid'⟩ := (h.stands _ _ hb).origin
  refine List.inj_on_of_nodup_map h.names ha hb ?_
  dsimp only [Function.comp_apply] at heq
  rw [hid, hid'] at heq
  exact name_of_id heq

section Runs

variable {config : Config φ} {profile : Profile} {sha256 : String → String}
  {requests : List (Request φ)} {registered : Jobs φ} {key : String} {job : Job φ}
  {request : Request φ}

/-- A job has the command line of each request that it stands for. -/
theorem Stands.command (h : Stands sha256 requests key job)
    (hplain : ∀ request ∈ requests, Plain request) (hsame : request.identity = key) :
    job.target = request.run.target ∧ bareArgv job.argv = request.run.argv := by
  obtain ⟨origin, -, hkey, -, hjobKey⟩ := h.exists_origin hplain
  obtain ⟨htarget, hargv⟩ := identity_inj (hsame.trans hkey.symm)
  have hjobTarget := congrArg Prod.fst hjobKey
  have hjobArgv := congrArg (fun k => k.2.1) hjobKey
  dsimp only [Job.key] at hjobTarget hjobArgv
  exact ⟨hjobTarget.trans htarget.symm, hjobArgv.trans hargv.symm⟩

variable [FloatArithmetic φ]

/-- A job is a run if the requests that it stands for are. -/
theorem Stands.isRun_iff (h : Stands sha256 requests key job)
    (hsource : ∀ request ∈ requests, Source config profile request)
    (hrequest : request ∈ requests) (hsame : request.identity = key) :
    job.family.isRun = true ↔ request.run.family.isRun = true := by
  obtain ⟨origin, horigin, hkey, hfamily, -⟩ :=
    h.exists_origin fun request hmem => (hsource request hmem).plain
  rw [hfamily]
  constructor
  · intro hrun
    exact (hsource origin horigin).isRun_of_identity (hsource request hrequest) hrun
      (hsame.trans hkey.symm)
  · intro hrun
    exact (hsource request hrequest).isRun_of_identity (hsource origin horigin) hrun
      (hkey.trans hsame.symm)

/-- The runs of an experiment are the product of its axes and seeds. -/
theorem Registered.covered (h : Registered sha256 requests registered)
    (hsource : ∀ request ∈ requests, Source config profile request) {name : String}
    {settings : Settings φ} {views : List String} (henabled : config.Enabled name settings views)
    (hpoints : ∀ point : Point φ, point.On settings → ∀ seed, IsSeed settings seed profile →
      ⟨point.run settings profile config.quick seed, name,
        scenarioViews (settings scenario).scalar ++ views, none⟩ ∈ requests) :
    Covered registered.values name = Product settings profile config.quick := by
  have hplain : ∀ request ∈ requests, Plain request := fun request hmem =>
    (hsource request hmem).plain
  ext e
  constructor
  · rintro ⟨job, hmem, hrun, hname, rfl⟩
    obtain ⟨⟨key, job⟩, hentry, rfl⟩ := List.mem_map.mp hmem
    have hstands := h.stands key job hentry
    obtain ⟨request, hrequest, hsame, rfl⟩ := (hstands.experiments name).mp hname
    have hisRun := (hstands.isRun_iff hsource hrequest hsame).mp hrun
    obtain ⟨settings', views', point, seed, henabled', hon, hseed, hpoint, -⟩ :=
      (hsource request hrequest).exists_point hisRun
    obtain ⟨rfl, rfl⟩ := henabled.eq henabled'
    obtain ⟨htarget, hargv⟩ := hstands.command hplain hsame
    refine ⟨point, hon, seed, hseed, ?_⟩
    rw [htarget, hargv, hpoint, hon.run_target, hon.run_argv]
  · rintro ⟨point, hon, seed, hseed, rfl⟩
    have hrequest := hpoints point hon seed hseed
    obtain ⟨⟨key, job⟩, hentry, hkey⟩ := List.mem_map.mp (h.found _ hrequest)
    obtain rfl : key = _ := hkey
    have hstands := h.stands _ job hentry
    obtain ⟨htarget, hargv⟩ := hstands.command hplain rfl
    refine ⟨job, List.mem_map.mpr ⟨_, hentry, rfl⟩, ?_, ?_, ?_⟩
    · exact (hstands.isRun_iff hsource hrequest rfl).mpr hon.isRun
    · exact (hstands.experiments name).mpr ⟨_, hrequest, rfl, rfl⟩
    · rw [htarget, hargv, hon.run_target, hon.run_argv]

/-- The views of a run are those of its experiments. -/
theorem Stands.mem_views_iff (h : Stands sha256 requests key job)
    (hsource : ∀ request ∈ requests, Source config profile request)
    (hrun : job.family.isRun = true) (view : String) :
    view ∈ job.analysisViews ↔ ∃ name settings views, config.Enabled name settings views ∧
      name ∈ job.experiments ∧ view ∈ scenarioViews (settings scenario).scalar ++ views := by
  rw [h.views view]
  constructor
  · rintro ⟨request, hrequest, hsame, hview⟩
    obtain ⟨settings, views, point, seed, henabled, -, -, -, hviews⟩ :=
      (hsource request hrequest).exists_point ((h.isRun_iff hsource hrequest hsame).mp hrun)
    rw [hviews] at hview
    exact ⟨request.experiment, settings, views, henabled,
      (h.experiments _).mpr ⟨request, hrequest, hsame, rfl⟩, hview⟩
  · rintro ⟨name, settings, views, henabled, hname, hview⟩
    obtain ⟨request, hrequest, hsame, rfl⟩ := (h.experiments name).mp hname
    obtain ⟨settings', views', point, seed, henabled', -, -, -, hviews⟩ :=
      (hsource request hrequest).exists_point ((h.isRun_iff hsource hrequest hsame).mp hrun)
    obtain ⟨rfl, rfl⟩ := henabled.eq henabled'
    exact ⟨request, hrequest, hsame, hviews ▸ hview⟩

end Runs

section Exact

variable [FloatArithmetic φ] [DecidableEq φ] {config : Config φ} {profile : Profile}
  {microbenchmark : Option Bool} {expanded : List (Job φ)}

/-- Experiments with a run in common share its job. -/
theorem shared_of_expand (h : expand sha256 config profile microbenchmark = .ok expanded)
    {name name' : String} {settings settings' : Settings φ} {views views' : List String}
    {seed : ℤ} (henabled : config.Enabled name settings views)
    (henabled' : config.Enabled name' settings' views') (point : Point φ) (hon : point.On settings)
    (hon' : point.On settings') (hseed : IsSeed settings seed profile)
    (hseed' : IsSeed settings' seed profile)
    (hargv : point.argv settings profile config.quick seed =
      point.argv settings' profile config.quick seed) :
    ∃ job ∈ expanded, job.target = point.kind.target ∧ name ∈ job.experiments ∧
      name' ∈ job.experiments := by
  obtain ⟨requests, registered, hregistered, rfl, hsource, hpoints⟩ := registered_of_expand h
  have hrequest := hpoints name settings views henabled point hon seed hseed
  have hrequest' := hpoints name' settings' views' henabled' point hon' seed hseed'
  obtain ⟨⟨key, job⟩, hentry, hkey⟩ := List.mem_map.mp (hregistered.found _ hrequest)
  have hstands := hregistered.stands key job hentry
  refine ⟨job, List.mem_map.mpr ⟨_, hentry, rfl⟩, ?_, ?_, ?_⟩
  · rw [(hstands.command (fun r hr => (hsource r hr).plain) hkey.symm).1, hon.run_target]
  · exact (hstands.experiments name).mpr ⟨_, hrequest, hkey.symm, rfl⟩
  · refine (hstands.experiments name').mpr ⟨_, hrequest', Eq.trans ?_ hkey.symm, rfl⟩
    simp only [Request.identity]
    rw [hon.run_target, hon'.run_target, hon.run_argv, hon'.run_argv, hargv]

/-- Expansion loses nothing and duplicates nothing: the jobs differ in their command lines,
identifiers and names, and those of an experiment are the product of its axes and seeds. -/
theorem exact_expand (h : expand sha256 config profile microbenchmark = .ok expanded) :
    Exact config profile expanded := by
  obtain ⟨requests, registered, hregistered, rfl, hsource, hpoints⟩ := registered_of_expand h
  have hplain : ∀ request ∈ requests, Plain request := fun request hmem =>
    (hsource request hmem).plain
  constructor
  case distinct => exact hregistered.distinct hplain
  case ids => exact hregistered.nodup_ids
  case names => exact hregistered.nodup_names
  case covered =>
    intro name settings views henabled
    exact hregistered.covered hsource henabled (hpoints name settings views henabled)
  case views =>
    intro job hmem hrun
    obtain ⟨⟨key, job⟩, hentry, rfl⟩ := List.mem_map.mp hmem
    have hstands := hregistered.stands key job hentry
    exact ⟨hstands.distinct, hstands.mem_views_iff hsource hrun⟩

end Exact

/-- A template with one entry on each axis. -/
def smallSettings : Settings ℚ
  | scenario => .item (.str "handover")
  | systems => .array [.str "statim"]
  | seedFirst | seedLast => .item (.int 1)
  | consumerRetransmissions | temporaryForwarding => .array [.bool true]
  | interestReforwarding => .array [.bool false]
  | controllerDelay | completionNoticeLoss => .array [.number (.float (1 / 10))]
  | statefulDelay => .array [.number (.float (25 / 2))]
  | consumerCbrFrequency => .item (.int 100)
  | payloadBytes => .item (.int 1024)
  | handoverBase | observationWindow => .item (.int 2)
  | handoverJitter => .item (.int 0)
  | stop => .item (.int 10)
  | refreshInterval | traceLifetime | interestLifetime => .item (.int 4)
  | initialRttEstimate | retryTimeoutMargin => .item (.number (.float (1 / 2)))
  | interestReforwardingLimit | controllerRetryLimit => .item (.int 3)
  | generationGuard => .item (.bool true)
  | controllerRetryTimeout => .item (.str "auto")
  | tracePathHops => .array [.int 2]
  | consumerJoin => .array [.str "middle"]
  | arrivalRate => .array [.int 5]
  | arrivalCount => .item (.int 1)
  | initialBurst => .array [.int 0]

/-- A completion notice that may be lost. -/
def lossSettings : Settings ℚ
  | completionNoticeLoss => .array [.int 0, .number (.float (1 / 10))]
  | key => smallSettings key

/-- Both systems. -/
def systemsSettings : Settings ℚ
  | systems => .array [.str "statim", .str "nfd-kite"]
  | key => smallSettings key

/-- A chain of routers. -/
def pathsSettings : Settings ℚ
  | scenario => .item (.str "path")
  | traceLifetime | refreshInterval => .item (.int 12)
  | key => smallSettings key

/-- Arrivals with and without a burst. -/
def occupancySettings : Settings ℚ
  | scenario => .item (.str "occupancy")
  | arrivalCount => .item (.int 12)
  | initialBurst => .array [.int 0, .int 10]
  | key => smallSettings key

/-- The section of an experiment that overrides some parameters. -/
def overriding (settings : Settings ℚ) (keys : List Parameter) : Experiment ℚ :=
  ⟨none, none, Dictionary.ofList (keys.map fun key => (key, settings key)), []⟩

/-- Experiments of all scenarios; the first two share a run. -/
def sampleConfig : Config ℚ where
  defaults := smallSettings
  experiments := Dictionary.ofList
    [("loss", overriding lossSettings [completionNoticeLoss]),
      ("systems", { overriding systemsSettings [systems] with
        enabled := some (.item (.bool true))
        analysisViews := some (.array [.str "both_systems"]) }),
      ("paths", overriding pathsSettings [scenario, traceLifetime, refreshInterval]),
      ("occupancy", overriding occupancySettings [scenario, arrivalCount, initialBurst]),
      ("disabled", ⟨some (.item (.bool false)), none, Dictionary.empty, []⟩)]
  checks := ⟨.item (.bool false), .array []⟩
  microbenchmark :=
    ⟨.item (.bool false), .item (.int 1), .item (.int 1), .item (.int 1), .item (.int 1),
      .item (.int 1)⟩
  quick := ⟨.item (.int 1), .item (.int 1), .item (.int 1), .item (.int 1), .item (.int 1)⟩

/-- A run of the six routers with the local update path. -/
def statimPoint (loss : Scalar ℚ) : Point ℚ :=
  .statim (.bool true) (.bool false) (.bool true) (.number (.float (1 / 10)))
    (.number (.float (25 / 2))) loss

/-- The runs and the digests of their identities. -/
def sampleDigests : List ((Settings ℚ × Point ℚ) × String) :=
  [((lossSettings, statimPoint (.int 0)),
      "90b68b6a98c1f9ea720f9cc97abe5a3ab8b0c2f04a44e3743d84c78f3e466d00"),
    ((lossSettings, statimPoint (.number (.float (1 / 10)))),
      "3ff3704cef3818058e66ed4a0f275f681ef7b4ba358f416a4fb3af4a8193e320"),
    ((systemsSettings, .kite (.bool true) (.bool false)),
      "d533051c37289979c58cc05128e72eb1e21a35bc1e9664a08239d3a500b1f78c"),
    ((pathsSettings, .path (.bool true) (.bool false) (.bool true) (.number (.float (1 / 10)))
        (.number (.float (25 / 2))) (.int 2) (.str "middle")),
      "230b19862aa2d2f06344f2ade45030cfe54d37d4b1e9b75450eea031b44521c2"),
    ((occupancySettings, .occupancy (.int 5) (.number (.float (1 / 10))) (.int 0)),
      "7eda84d9cbd4dec2194cd5675b8c8d6a91f49d9a5354ae153778846826e5f3e7"),
    ((occupancySettings, .occupancy (.int 5) (.number (.float (1 / 10))) (.int 10)),
      "7606af694a2a9f50e920fe0e8bbeca64b2779effd68c2cb1e175591846339092")]

/-- The identity of the first run of a point. -/
def sampleIdentity (e : Settings ℚ × Point ℚ) : String :=
  identity e.2.kind.target (e.2.argv e.1 .quick sampleConfig.quick 1) none

/-- The hash function, as far as the runs of the sample need it. -/
def sampleDigest (text : String) : String :=
  ((sampleDigests.find? fun e => sampleIdentity e.1 = text).map Prod.snd).getD ""

theorem asks_overriding {settings : Settings ℚ} {keys : List Parameter} (hnodup : keys.Nodup)
    (hothers : ∀ key ∉ keys, settings key = smallSettings key) :
    Asks sampleConfig (overriding settings keys) settings [] := by
  have hkeys : (keys.map fun key => (key, settings key)).map Prod.fst = keys := by
    rw [List.map_map]
    exact List.map_id keys
  refine ⟨Or.inl rfl, fun key value hmem => ?_, fun key hkey => ?_, Or.inl ⟨rfl, rfl⟩⟩
  · rw [overriding, Dictionary.entries_ofList (hkeys.symm ▸ hnodup)] at hmem
    obtain ⟨key, -, hentry⟩ := List.mem_map.mp hmem
    obtain ⟨rfl, rfl⟩ := Prod.mk.inj hentry
    rfl
  · rw [overriding, Dictionary.mem_keys_ofList, hkeys] at hkey
    exact hothers key hkey

theorem enabled_loss : sampleConfig.Enabled "loss" lossSettings [] :=
  ⟨_, List.mem_cons_self, asks_overriding (by decide) fun key hkey => by
    cases key with
    | completionNoticeLoss => exact absurd List.mem_cons_self hkey
    | _ => rfl⟩

theorem enabled_systems : sampleConfig.Enabled "systems" systemsSettings ["both_systems"] := by
  have hasks : Asks sampleConfig (overriding systemsSettings [systems]) systemsSettings [] :=
    asks_overriding (by decide) fun key hkey => by
      cases key with
      | systems => exact absurd List.mem_cons_self hkey
      | _ => rfl
  exact ⟨_, List.mem_cons_of_mem _ List.mem_cons_self,
    ⟨Or.inr rfl, hasks.overridden, hasks.inherited, Or.inr rfl⟩⟩

theorem enabled_paths : sampleConfig.Enabled "paths" pathsSettings [] :=
  ⟨_, List.mem_cons_of_mem _ (List.mem_cons_of_mem _ List.mem_cons_self),
    asks_overriding (by decide) fun key hkey => by
      cases key with
      | scenario | traceLifetime | refreshInterval => exact absurd (by decide) hkey
      | _ => rfl⟩

theorem enabled_occupancy : sampleConfig.Enabled "occupancy" occupancySettings [] :=
  ⟨_, List.mem_cons_of_mem _ (List.mem_cons_of_mem _
      (List.mem_cons_of_mem _ List.mem_cons_self)),
    asks_overriding (by decide) fun key hkey => by
      cases key with
      | scenario | arrivalCount | initialBurst => exact absurd (by decide) hkey
      | _ => rfl⟩

/-- The settings of the enabled experiments. -/
theorem settings_of_enabled {name : String} {settings : Settings ℚ} {views : List String}
    (h : sampleConfig.Enabled name settings views) :
    settings ∈ [lossSettings, systemsSettings, pathsSettings, occupancySettings] := by
  obtain ⟨experiment, hmem, hasks⟩ := id h
  simp only [List.mem_cons, List.not_mem_nil, or_false]
  have hentries : (name, experiment) ∈ [_, _, _, _, _] := hmem
  simp only [List.mem_cons, Prod.mk.injEq, List.not_mem_nil, or_false] at hentries
  rcases hentries with ⟨rfl, -⟩ | ⟨rfl, -⟩ | ⟨rfl, -⟩ | ⟨rfl, -⟩ | ⟨-, rfl⟩
  · exact Or.inl (h.eq enabled_loss).1
  · exact Or.inr (Or.inl (h.eq enabled_systems).1)
  · exact Or.inr (Or.inr (Or.inl (h.eq enabled_paths).1))
  · exact Or.inr (Or.inr (Or.inr (h.eq enabled_occupancy).1))
  · rcases hasks.enabled with henabled | henabled
    · cases henabled
    · cases henabled

/-- The runs with a digest are those of enabled experiments. -/
theorem sampleDigests_on : ∀ e ∈ sampleDigests, e.1.2.On e.1.1 ∧ IsSeed e.1.1 1 .quick ∧
    ∃ name views, sampleConfig.Enabled name e.1.1 views := by
  simp only [sampleDigests, List.forall_mem_cons]
  refine ⟨⟨?_, rfl, _, _, enabled_loss⟩, ⟨?_, rfl, _, _, enabled_loss⟩,
    ⟨?_, rfl, _, _, enabled_systems⟩, ⟨?_, rfl, _, _, enabled_paths⟩,
    ⟨?_, rfl, _, _, enabled_occupancy⟩, ⟨?_, rfl, _, _, enabled_occupancy⟩, ?_⟩
  · simp [Point.On, statimPoint, lossSettings, smallSettings, Value.values, Value.scalar]
  · simp [Point.On, statimPoint, lossSettings, smallSettings, Value.values, Value.scalar]
  · simp [Point.On, systemsSettings, smallSettings, Value.values, Value.scalar]
  · simp [Point.On, pathsSettings, smallSettings, Value.values, Value.scalar]
  · simp [Point.On, occupancySettings, smallSettings, Value.values, Value.scalar]
  · simp [Point.On, occupancySettings, smallSettings, Value.values, Value.scalar]
  · exact fun _ h => absurd h List.not_mem_nil

/-- Where the completion notice is lost, both experiments run the same command. -/
theorem argv_systems :
    (statimPoint (.number (.float (1 / 10)))).argv systemsSettings .quick sampleConfig.quick 1 =
      (statimPoint (.number (.float (1 / 10)))).argv lossSettings .quick sampleConfig.quick 1 :=
  rfl

/-- All runs have a digest. -/
theorem exists_sampleDigest {settings : Settings ℚ} {point : Point ℚ}
    (hmem : settings ∈ [lossSettings, systemsSettings, pathsSettings, occupancySettings])
    (hon : point.On settings) :
    ∃ e ∈ sampleDigests, sampleIdentity e.1 = sampleIdentity (settings, point) := by
  simp only [List.mem_cons, List.not_mem_nil, or_false] at hmem
  rcases hmem with rfl | rfl | rfl | rfl
  · cases point with
    | statim r f t d p l =>
        simp only [Point.On, lossSettings, smallSettings, Value.values, List.mem_cons,
          List.not_mem_nil, or_false] at hon
        obtain ⟨-, -, rfl, rfl, rfl, rfl, rfl, rfl | rfl⟩ := hon
        · exact ⟨_, List.mem_cons_self, rfl⟩
        · exact ⟨_, List.mem_cons_of_mem _ List.mem_cons_self, rfl⟩
    | kite r f => exact absurd hon.2.1 (by decide)
    | path | occupancy => exact absurd hon.1 (by decide)
  · cases point with
    | statim r f t d p l =>
        simp only [Point.On, systemsSettings, smallSettings, Value.values, List.mem_cons,
          List.not_mem_nil, or_false] at hon
        obtain ⟨-, -, rfl, rfl, rfl, rfl, rfl, rfl⟩ := hon
        refine ⟨_, List.mem_cons_of_mem _ List.mem_cons_self, ?_⟩
        exact congrArg (identity "statim-grid" · none) argv_systems.symm
    | kite r f =>
        simp only [Point.On, systemsSettings, smallSettings, Value.values, List.mem_cons,
          List.not_mem_nil, or_false] at hon
        obtain ⟨-, -, rfl, rfl⟩ := hon
        exact ⟨_, List.mem_cons_of_mem _ (List.mem_cons_of_mem _ List.mem_cons_self), rfl⟩
    | path | occupancy => exact absurd hon.1 (by decide)
  · cases point with
    | path r f t d p hops join =>
        simp only [Point.On, pathsSettings, smallSettings, Value.values, List.mem_cons,
          List.not_mem_nil, or_false] at hon
        obtain ⟨-, rfl, rfl, rfl, rfl, rfl, rfl, rfl⟩ := hon
        exact ⟨sampleDigests[3], List.getElem_mem _, rfl⟩
    | kite | statim | occupancy => exact absurd hon.1 (by decide)
  · cases point with
    | occupancy rate delay burst =>
        simp only [Point.On, occupancySettings, smallSettings, Value.values, List.mem_cons,
          List.not_mem_nil, or_false] at hon
        obtain ⟨-, rfl, rfl, rfl | rfl⟩ := hon
        · exact ⟨sampleDigests[4], List.getElem_mem _, rfl⟩
        · exact ⟨sampleDigests[5], List.getElem_mem _, rfl⟩
    | kite | statim | path => exact absurd hon.1 (by decide)

/-- The digest of a run. -/
theorem sampleDigest_spec {e : (Settings ℚ × Point ℚ) × String} (h : e ∈ sampleDigests) :
    ∃ e' ∈ sampleDigests, sampleIdentity e'.1 = sampleIdentity e.1 ∧
      sampleDigest (sampleIdentity e.1) = e'.2 := by
  have hsome : (sampleDigests.find? fun e' => sampleIdentity e'.1 = sampleIdentity e.1).isSome := by
    rw [List.find?_isSome]
    exact ⟨e, h, decide_eq_true rfl⟩
  obtain ⟨e', hfound⟩ := Option.isSome_iff_exists.mp hsome
  refine ⟨e', List.mem_of_find?_eq_some hfound, ?_, ?_⟩
  · have hequal := List.find?_some hfound
    exact of_decide_eq_true hequal
  · rw [sampleDigest, hfound]
    rfl

/-- Runs with the same name are the same. -/
theorem identity_of_jobName {r r' : Request ℚ}
    (h : ∃ e ∈ sampleDigests, sampleIdentity e.1 = r.identity)
    (h' : ∃ e ∈ sampleDigests, sampleIdentity e.1 = r'.identity)
    (hname : jobName sampleDigest r = jobName sampleDigest r') : r.identity = r'.identity := by
  obtain ⟨e, he, hidentity⟩ := h
  obtain ⟨e', he', hidentity'⟩ := h'
  obtain ⟨d, hd, hsame, hdigest⟩ := sampleDigest_spec he
  obtain ⟨d', hd', hsame', hdigest'⟩ := sampleDigest_spec he'
  rw [hidentity] at hsame hdigest
  rw [hidentity'] at hsame' hdigest'
  have hlength : ∀ e ∈ sampleDigests, (e.2.toList.take 16).length = 16 := by
    decide +kernel
  have hdigits : d.2.toList.take 16 = d'.2.toList.take 16 := by
    have hlists := congrArg String.toList hname
    simp only [jobName, String.toList_append, String.toList_ofList, hdigest, hdigest'] at hlists
    exact List.append_inj_right' hlists ((hlength d hd).trans (hlength d' hd').symm)
  have hnodup : (sampleDigests.map fun e => e.2.toList.take 16).Nodup := by
    decide +kernel
  obtain rfl := List.inj_on_of_nodup_map hnodup hd hd' hdigits
  exact hsame.symm.trans hsame'

theorem validateConfig_sampleConfig : validateConfig sampleConfig = .ok () := by
  have hok : (validateConfig sampleConfig).isOk = true := by decide +kernel
  cases hvalid : validateConfig sampleConfig with
  | error message =>
      rw [hvalid] at hok
      cases hok
  | ok u => rfl

theorem expand_sampleConfig : ∃ expanded,
    expand sampleDigest sampleConfig .quick none = .ok expanded := by
  obtain ⟨found, hfound⟩ := effectiveExperiments_of_validateConfig validateConfig_sampleConfig
  refine expand_ok validateConfig_sampleConfig hfound rfl ?_
  have hdigests : ∀ r ∈ experimentRequests sampleConfig.quick .quick found ++ [] ++ [],
      ∃ e ∈ sampleDigests, sampleIdentity e.1 = r.identity := by
    intro r hmem
    rw [List.append_nil, List.append_nil] at hmem
    obtain ⟨⟨name, settings, views⟩, hentry, hmem⟩ := List.mem_flatMap.mp hmem
    obtain ⟨run, hrun, rfl⟩ := List.mem_map.mp hmem
    have henabled := (mem_effectiveExperiments hfound).mp hentry
    obtain ⟨point, hon, seed, hseed, rfl⟩ := (mem_runs (typed_of_enabled hfound henabled)).mp hrun
    have hsettings := settings_of_enabled henabled
    obtain ⟨e, he, hidentity⟩ := exists_sampleDigest hsettings hon
    refine ⟨e, he, hidentity.trans ?_⟩
    have hone : seed = 1 := by
      rw [List.mem_singleton.mp hseed]
      simp only [List.mem_cons, List.not_mem_nil, or_false] at hsettings
      rcases hsettings with rfl | rfl | rfl | rfl <;> rfl
    rw [Request.identity, hone, hon.run_target, hon.run_argv]
    rfl
  exact fun r hr r' hr' => identity_of_jobName (hdigests r hr) (hdigests r' hr')

/-- Two experiments share a run, and those of the second one are the product of its axes,
which has both systems. -/
theorem exact_expand_sampleConfig : ∃ expanded,
    expand sampleDigest sampleConfig .quick none = .ok expanded ∧
      (∃ job ∈ expanded, job.target = "statim-grid" ∧ "loss" ∈ job.experiments ∧
        "systems" ∈ job.experiments) ∧
      Exact sampleConfig .quick expanded ∧
      Covered expanded "systems" = Product systemsSettings .quick sampleConfig.quick := by
  obtain ⟨expanded, hexpand⟩ := expand_sampleConfig
  have hexact := exact_expand hexpand
  refine ⟨expanded, hexpand, ?_, hexact, hexact.covered _ _ _ enabled_systems⟩
  obtain ⟨hon, hseed, -⟩ := sampleDigests_on sampleDigests[1] (List.getElem_mem _)
  refine shared_of_expand hexpand enabled_loss enabled_systems
    (statimPoint (.number (.float (1 / 10)))) hon ?_ hseed rfl argv_systems.symm
  simp [Point.On, statimPoint, systemsSettings, smallSettings, Value.values, Value.scalar]

end Statim.Experiments
