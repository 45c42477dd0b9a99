import Statim.Experiments.Expansion

/-!
# Reconstruction

The command line of a run describes it completely: read back without the recorded
parameters, it gives the same effective parameters.  The options are followed through the
reader entry by entry; numbers agree by value, read as exact decimals.
-/

namespace Statim.Experiments

open Support Parameter FloatArithmetic

section Reading

variable {φ : Type} [FloatArithmetic φ]

/-! ## Arguments and options -/

/-- The reader skips the generated output prefix. -/
theorem readOptions_bareArgv (argv : List String) :
    readOptions (φ := φ) (bareArgv argv) = readOptions argv := by
  suffices hfold : ∀ result : Dictionary String (Scalar φ),
      (bareArgv argv).foldl readArgument result = argv.foldl readArgument result from
    hfold Dictionary.empty
  induction argv with
  | nil => exact fun _ => rfl
  | cons arg rest ih =>
      intro result
      by_cases hskipped : (splitArgument arg).map Prod.fst = some "outputPrefix"
      · obtain ⟨⟨name, text⟩, hsplit, hname⟩ := Option.map_eq_some_iff.mp hskipped
        have hskip : readArgument result arg = result := by
          simp only [readArgument, hsplit]
          exact if_pos hname
        rw [bareArgv, List.filter_cons_of_neg (by simp [hskipped]), List.foldl_cons, hskip]
        exact ih result
      · rw [bareArgv, List.filter_cons_of_pos (by simp [hskipped]), List.foldl_cons,
          List.foldl_cons]
        exact ih _

/-- The parameters of a command line do not depend on the output prefix. -/
theorem reconstruct_bareArgv {target : String} (argv : List String)
    (htarget : target ≠ "software-microbenchmark") :
    reconstruct (φ := φ) target (bareArgv argv) = reconstruct target argv := by
  have hany : ((bareArgv argv).any fun arg => (splitArgument arg).map Prod.fst = some "retxTime") =
      argv.any fun arg => (splitArgument arg).map Prod.fst = some "retxTime" := by
    rw [bareArgv, List.any_filter]
    refine congrArg (fun p => argv.any p) (funext fun arg => ?_)
    by_cases hname : (splitArgument arg).map Prod.fst = some "retxTime"
    · simp [hname]
    · simp [hname]
  simp only [reconstruct, if_neg htarget, defaultEstimate, hany, readOptions_bareArgv]

/-- The parameter of an option, as it is read. -/
def readOption (option : String × String) : String × Scalar φ :=
  (optionName option.1, scalar (.str option.2))

theorem readArgument_argument {option : String × String} (result : Dictionary String (Scalar φ))
    (hplain : '=' ∉ option.1.toList ∧ option.1 ≠ "outputPrefix") :
    readArgument result (argument option.1 option.2) =
      result.insert (optionName option.1) (scalar (.str option.2)) := by
  simp only [readArgument, splitArgument_argument option.2 hplain.1, if_neg hplain.2]

theorem readOptions_arguments {options : List (String × String)}
    (hplain : ∀ option ∈ options, '=' ∉ option.1.toList ∧ option.1 ≠ "outputPrefix") :
    readOptions (options.map fun option => argument option.1 option.2) =
      Dictionary.ofList (options.map (readOption (φ := φ))) := by
  suffices hfold : ∀ result : Dictionary String (Scalar φ),
      (options.map fun option => argument option.1 option.2).foldl readArgument result =
        result.update (options.map readOption) from hfold Dictionary.empty
  induction options with
  | nil => exact fun _ => rfl
  | cons option rest ih =>
      intro result
      rw [List.map_cons, List.foldl_cons,
        readArgument_argument result (hplain option List.mem_cons_self)]
      exact ih (fun other hmem => hplain other (List.mem_cons_of_mem option hmem)) _

/-! ## The options of a point -/

/-- The key under which an option ends up. -/
def finalKey (name : String) : String :=
  if optionName name = "stateful_delay_s" then "stateful_delay_us"
  else if optionName name = "run" then "seed"
  else optionName name

/-- The value of an option, as it ends up. -/
def finalValue (option : String × String) : Scalar φ :=
  if optionName option.1 = "stateful_delay_s" then
    .number (mul (scalar (.str option.2) : Scalar φ).toNumber (.int 1000000))
  else scalar (.str option.2)

namespace Kind

/-- The keys of the settings that the program fixes. -/
def fixedKeys : Kind → List String
  | kite | statim => ["system", "scenario", "topology"]
  | path => ["system", "scenario", "topology", "interest_reforwarding_limit", "generation_guard",
      "controller_retry_limit", "controller_retry_timeout_s", "completion_notice_loss"]
  | occupancy => ["scenario", "system"]

omit [FloatArithmetic φ] in
theorem keys_fixedSettings (kind : Kind) :
    (fixedSettings (φ := φ) kind.target).map Prod.fst = kind.fixedKeys := by
  cases kind <;> rfl

theorem nodup_readKeys (kind : Kind) : (kind.optionKeys.map optionName).Nodup := by
  cases kind <;> decide

theorem retxTime_notMem (kind : Kind) : "retxTime" ∉ kind.optionKeys := by
  cases kind <;> decide

/-- No option is read under a key that the reader moves another one to, or under a key of
earlier data sets. -/
theorem readKeys_free (kind : Kind) : "stateful_delay_us" ∉ kind.optionKeys.map optionName ∧
    "completion_notice_loss_probability" ∉ kind.optionKeys.map optionName := by
  cases kind <;> decide

/-- The run index is the seed of a network program only. -/
theorem run_or_seed (kind : Kind) :
    if kind.target ∈ networkTargets then "seed" ∉ kind.optionKeys.map optionName
    else "run" ∉ kind.optionKeys.map optionName := by
  cases kind <;> decide

/-- What the program fixes is no option. -/
theorem fixedKeys_free (kind : Kind) : kind.fixedKeys.Nodup ∧
    ∀ key ∈ kind.fixedKeys, key ∉ kind.optionKeys.map finalKey := by
  cases kind <;> decide

/-- The recorded parameters are the options and what the program fixes. -/
theorem parameterKeys_subset (kind : Kind) : ∀ key ∈ kind.parameterKeys,
    key ∈ kind.optionKeys.map finalKey ∨ key ∈ kind.fixedKeys := by
  cases kind <;> decide

theorem fixedKeys_subset (kind : Kind) : ∀ key ∈ kind.fixedKeys, key ∈ kind.parameterKeys := by
  cases kind <;> decide

/-- The recorded names are the common ones. -/
theorem parameterKeys_common (kind : Kind) :
    "completion_notice_loss_probability" ∉ kind.parameterKeys ∧ "run" ∉ kind.parameterKeys := by
  cases kind <;> decide

end Kind

variable {settings : Settings φ} {profile : Profile} {quick : Quick φ} {seed : ℤ}

/-- The entries read from a command line are its options. -/
theorem mem_readOptions {point : Point φ} {e : String × Scalar φ} :
    e ∈ (readOptions (point.argv settings profile quick seed)).entries ↔
      ∃ option ∈ point.options settings profile quick seed, e = readOption option := by
  have hkeys := Point.keys_options settings profile quick seed point
  have hoptions : (point.options settings profile quick seed |>.map Prod.fst).Nodup :=
    hkeys ▸ point.kind.nodup_optionKeys
  -- the arguments are the sorted options
  have hsorted : point.argv settings profile quick seed =
      ((point.options settings profile quick seed).insertionSort fun a b => a.1 ≤ b.1).map
        fun option => argument option.1 option.2 := by
    rw [Point.argv, arguments, Dictionary.entries_ofList hoptions]
  have hperm := List.perm_insertionSort (fun a b : String × String => a.1 ≤ b.1)
    (point.options settings profile quick seed)
  have hplain : ∀ option ∈ (point.options settings profile quick seed).insertionSort
      (fun a b => a.1 ≤ b.1), '=' ∉ option.1.toList ∧ option.1 ≠ "outputPrefix" := by
    intro option hmem
    apply point.kind.plain_optionKeys
    rw [← hkeys]
    exact List.mem_map_of_mem (hperm.mem_iff.mp hmem)
  have hnodup : (((point.options settings profile quick seed).insertionSort
      fun a b => a.1 ≤ b.1).map (readOption (φ := φ)) |>.map Prod.fst).Nodup := by
    have hread := point.kind.nodup_readKeys
    rw [← hkeys, List.map_map] at hread
    rw [List.map_map, (hperm.map _).nodup_iff]
    exact hread
  rw [hsorted, readOptions_arguments hplain, Dictionary.entries_ofList hnodup, List.mem_map]
  constructor
  · rintro ⟨option, hmem, rfl⟩
    exact ⟨option, hperm.mem_iff.mp hmem, rfl⟩
  · rintro ⟨option, hmem, rfl⟩
    exact ⟨option, hperm.mem_iff.mpr hmem, rfl⟩

theorem mem_inMicroseconds {d : Dictionary String (Scalar φ)}
    (hfree : "stateful_delay_us" ∉ d.keys) {e : String × Scalar φ} :
    e ∈ (inMicroseconds d).entries ↔ ∃ e' ∈ d.entries, e =
      if e'.1 = "stateful_delay_s" then
        ("stateful_delay_us", .number (mul e'.2.toNumber (.int 1000000))) else e' := by
  unfold inMicroseconds
  split
  next value hvalue =>
    exact Dictionary.mem_entries_move (fun x => .number (mul x.toNumber (.int 1000000)))
      (Dictionary.get?_eq_some_iff.mp hvalue) hfree
  next hnone =>
    exact Dictionary.mem_entries_keep _ (Dictionary.get?_eq_none_iff.mp hnone)

/-- Renaming to a key that is not there. -/
theorem exists_rename {d : Dictionary String (Scalar φ)} {old new message : String}
    (hfree : new ∉ d.keys) : ∃ d', rename old new message d = .ok d' ∧
      ∀ e, e ∈ d'.entries ↔ ∃ e' ∈ d.entries, e = if e'.1 = old then (new, e'.2) else e' := by
  unfold rename
  split
  next hnone =>
    refine ⟨d, rfl, fun e => ?_⟩
    exact Dictionary.mem_entries_keep _ (Dictionary.get?_eq_none_iff.mp hnone)
  next value hvalue =>
    have herased : (d.erase old).get? new = none := by
      rw [Dictionary.get?_eq_none_iff, Dictionary.mem_keys_erase]
      exact fun h => hfree h.2
    rw [herased]
    refine ⟨_, rfl, fun e => ?_⟩
    exact Dictionary.mem_entries_move id (Dictionary.get?_eq_some_iff.mp hvalue) hfree

theorem rename_of_notMem {d : Dictionary String (Scalar φ)} {old new message : String}
    (hgone : old ∉ d.keys) : rename old new message d = .ok d := by
  rw [rename, Dictionary.get?_eq_none_iff.mpr hgone]

/-! ## The reconstructed parameters -/

/-- The parameters of the command line of a point and a seed. -/
def Point.reconstruction (settings : Settings φ) (profile : Profile) (quick : Quick φ) (seed : ℤ)
    (point : Point φ) : Dictionary String (Scalar φ) :=
  reconstruct point.kind.target (point.argv settings profile quick seed)

theorem mem_keys_readOptions {point : Point φ} {key : String}
    (h : key ∈ (readOptions (φ := φ) (point.argv settings profile quick seed)).keys) :
    key ∈ point.kind.optionKeys.map optionName := by
  obtain ⟨value, hmem⟩ := Dictionary.exists_of_mem_keys h
  obtain ⟨option, hoption, heq⟩ := mem_readOptions.mp hmem
  have hkey : key = optionName option.1 := congrArg Prod.fst heq
  rw [← Point.keys_options settings profile quick seed point, List.map_map, hkey]
  exact List.mem_map_of_mem (f := optionName ∘ Prod.fst) hoption

theorem defaultEstimate_argv (point : Point φ) (d : Dictionary String (Scalar φ)) :
    defaultEstimate (point.argv settings profile quick seed) d = d := by
  refine if_neg fun hany => ?_
  obtain ⟨arg, harg, hname⟩ := List.any_eq_true.mp hany
  obtain ⟨key, hkey, value, rfl⟩ := mem_argv_arguments harg
  rw [Point.keys_options] at hkey
  rw [splitArgument_argument value (point.kind.plain_optionKeys key hkey).1] at hname
  obtain rfl : key = "retxTime" := by simpa using hname
  exact point.kind.retxTime_notMem hkey

/-- The entries of the reconstruction, before the common vocabulary. -/
theorem mem_reconstruct {point : Point φ} {e : String × Scalar φ} :
    e ∈ (point.reconstruction settings profile quick seed).entries ↔
      ∃ option ∈ point.options settings profile quick seed, e =
        if optionName option.1 = "stateful_delay_s" then
          ("stateful_delay_us",
            .number (mul (scalar (.str option.2) : Scalar φ).toNumber (.int 1000000)))
        else readOption option := by
  have hfree : "stateful_delay_us" ∉
      (readOptions (φ := φ) (point.argv settings profile quick seed)).keys := fun h =>
    point.kind.readKeys_free.1 (mem_keys_readOptions h)
  rw [Point.reconstruction, reconstruct, if_neg point.kind.target_ne_microbenchmark,
    defaultEstimate_argv, mem_inMicroseconds hfree]
  constructor
  · rintro ⟨e', hmem, rfl⟩
    obtain ⟨option, hoption, rfl⟩ := mem_readOptions.mp hmem
    exact ⟨option, hoption, rfl⟩
  · rintro ⟨option, hoption, rfl⟩
    exact ⟨readOption option, mem_readOptions.mpr ⟨option, hoption, rfl⟩, rfl⟩

theorem mem_keys_reconstruct {point : Point φ} {key : String}
    (h : key ∈ (point.reconstruction settings profile quick seed).keys) :
    key = "stateful_delay_us" ∨ key ∈ point.kind.optionKeys.map optionName := by
  obtain ⟨value, hmem⟩ := Dictionary.exists_of_mem_keys h
  obtain ⟨option, hoption, heq⟩ := mem_reconstruct.mp hmem
  by_cases hdelay : optionName option.1 = "stateful_delay_s"
  · rw [if_pos hdelay] at heq
    exact Or.inl (congrArg Prod.fst heq)
  · rw [if_neg hdelay] at heq
    have hkey : key = optionName option.1 := congrArg Prod.fst heq
    rw [← Point.keys_options settings profile quick seed point, List.map_map, hkey]
    exact Or.inr (List.mem_map_of_mem (f := optionName ∘ Prod.fst) hoption)

/-- The reconstruction with the run index under its common name. -/
theorem exists_renamed (settings : Settings φ) (profile : Profile) (quick : Quick φ) (seed : ℤ)
    (point : Point φ) :
    ∃ d, renameRun point.kind.target (point.reconstruction settings profile quick seed) = .ok d ∧
      ∀ e, e ∈ d.entries ↔ ∃ option ∈ point.options settings profile quick seed,
        e = (finalKey option.1, finalValue option) := by
  have hkeys := point.kind.run_or_seed
  have hmoved :
      ∃ d, renameRun point.kind.target (point.reconstruction settings profile quick seed) = .ok d ∧
        ∀ e, e ∈ d.entries ↔ ∃ e' ∈ (point.reconstruction settings profile quick seed).entries,
          e = if e'.1 = "run" then ("seed", e'.2) else e' := by
    unfold renameRun
    by_cases htarget : point.kind.target ∈ networkTargets
    · rw [if_pos htarget] at hkeys ⊢
      refine exists_rename fun h => ?_
      rcases mem_keys_reconstruct h with hkey | hkey
      · exact absurd hkey (by decide)
      · exact hkeys hkey
    · rw [if_neg htarget] at hkeys ⊢
      refine ⟨_, rfl, fun e => Dictionary.mem_entries_keep _ fun h => ?_⟩
      rcases mem_keys_reconstruct h with hkey | hkey
      · exact absurd hkey (by decide)
      · exact hkeys hkey
  obtain ⟨d, hd, hentries⟩ := hmoved
  -- both moves together give the final key and value of an option
  have hfinal : ∀ option : String × String,
      (finalKey option.1, (finalValue option : Scalar φ)) =
        let e := if optionName option.1 = "stateful_delay_s" then
            ("stateful_delay_us",
              .number (mul (scalar (.str option.2) : Scalar φ).toNumber (.int 1000000)))
          else readOption option
        if e.1 = "run" then ("seed", e.2) else e := by
    intro option
    by_cases hdelay : optionName option.1 = "stateful_delay_s"
    · simp [finalKey, finalValue, hdelay]
    · by_cases hrun : optionName option.1 = "run"
      · simp [finalKey, finalValue, readOption, hrun]
      · simp [finalKey, finalValue, readOption, hrun, hdelay]
  refine ⟨d, hd, fun e => ?_⟩
  rw [hentries e]
  constructor
  · rintro ⟨e', hmem, rfl⟩
    obtain ⟨option, hoption, rfl⟩ := mem_reconstruct.mp hmem
    exact ⟨option, hoption, (hfinal option).symm⟩
  · rintro ⟨option, hoption, rfl⟩
    exact ⟨_, mem_reconstruct.mpr ⟨option, hoption, rfl⟩, hfinal option⟩

/-! ## Fixed settings -/

omit [FloatArithmetic φ] in
theorem setdefaults_of_free {defaults : List (String × Scalar φ)}
    {d : Dictionary String (Scalar φ)} (hnodup : (defaults.map Prod.fst).Nodup)
    (hfree : ∀ key ∈ defaults.map Prod.fst, key ∉ d.keys) :
    (setdefaults defaults d).entries = d.entries ++ defaults := by
  induction defaults generalizing d with
  | nil => exact (List.append_nil _).symm
  | cons e rest ih =>
      rw [List.map_cons, List.nodup_cons] at hnodup
      have hnew : e.1 ∉ d.keys := hfree e.1 List.mem_cons_self
      have hstep : setdefaults (e :: rest) d = setdefaults rest (d.insert e.1 e.2) := by
        rw [← Dictionary.setdefault_of_notMem e.2 hnew]
        rfl
      have hrest : ∀ key ∈ rest.map Prod.fst, key ∉ (d.insert e.1 e.2).keys := by
        intro key hkey hmem
        rcases Dictionary.mem_keys_insert.mp hmem with rfl | hmem
        · exact hnodup.1 hkey
        · exact hfree key (List.mem_cons_of_mem _ hkey) hmem
      rw [hstep, ih hnodup.2 hrest, Dictionary.entries_insert_of_notMem _ hnew, List.append_assoc]
      rfl

omit [FloatArithmetic φ] in
theorem setdefaults_of_mem {defaults : List (String × Scalar φ)}
    {d : Dictionary String (Scalar φ)} (h : ∀ key ∈ defaults.map Prod.fst, key ∈ d.keys) :
    setdefaults defaults d = d := by
  induction defaults with
  | nil => rfl
  | cons e rest ih =>
      have hstep : setdefaults (e :: rest) d = setdefaults rest d :=
        congrArg (setdefaults rest) (Dictionary.setdefault_of_mem e.2 (h e.1 List.mem_cons_self))
      rw [hstep]
      exact ih fun key hkey => h key (List.mem_cons_of_mem _ hkey)

/-! ## Both sides in the common vocabulary -/

/-- The effective parameters of a command line: its options and what the program fixes. -/
theorem canonical_reconstruction (settings : Settings φ) (profile : Profile) (quick : Quick φ)
    (seed : ℤ) (point : Point φ) :
    ∃ d, canonicalParameters point.kind.target
        (point.reconstruction settings profile quick seed) = .ok d ∧
      ∀ e, e ∈ d.entries ↔
        (∃ option ∈ point.options settings profile quick seed,
          e = (finalKey option.1, canonicalValue (finalKey option.1) (finalValue option))) ∨
        ∃ f ∈ fixedSettings point.kind.target, e = (f.1, canonicalValue f.1 f.2) := by
  have hgone : "completion_notice_loss_probability" ∉
      (point.reconstruction settings profile quick seed).keys := by
    intro h
    rcases mem_keys_reconstruct h with hkey | hkey
    · exact absurd hkey (by decide)
    · exact point.kind.readKeys_free.2 hkey
  obtain ⟨d, hd, hentries⟩ := exists_renamed settings profile quick seed point
  have hkeys := point.kind.keys_fixedSettings (φ := φ)
  have hfree : ∀ key ∈ (fixedSettings (φ := φ) point.kind.target).map Prod.fst, key ∉ d.keys := by
    intro key hkey hmem
    rw [hkeys] at hkey
    obtain ⟨value, hmem⟩ := Dictionary.exists_of_mem_keys hmem
    obtain ⟨option, hoption, heq⟩ := (hentries _).mp hmem
    apply point.kind.fixedKeys_free.2 key hkey
    have hfinal : key = finalKey option.1 := congrArg Prod.fst heq
    rw [← Point.keys_options settings profile quick seed point, List.map_map, hfinal]
    exact List.mem_map_of_mem (f := finalKey ∘ Prod.fst) hoption
  have hdefaults := setdefaults_of_free (hkeys ▸ point.kind.fixedKeys_free.1) hfree
  refine ⟨(setdefaults (fixedSettings point.kind.target) d).mapValues canonicalValue, ?_,
    fun e => ?_⟩
  · rw [canonicalParameters, rename_of_notMem hgone]
    exact bind_eq_ok.mpr ⟨_, rfl, bind_eq_ok.mpr ⟨d, hd, rfl⟩⟩
  · rw [Dictionary.mem_entries_mapValues, hdefaults]
    simp only [List.mem_append, or_and_right, exists_or, hentries]
    refine or_congr ?_ Iff.rfl
    constructor
    · rintro ⟨e', ⟨option, hoption, rfl⟩, rfl⟩
      exact ⟨option, hoption, rfl⟩
    · rintro ⟨option, hoption, rfl⟩
      exact ⟨_, ⟨option, hoption, rfl⟩, rfl⟩

/-- The recorded parameters are in the common vocabulary already. -/
theorem canonical_recorded (point : Point φ) :
    canonicalParameters point.kind.target
        (Dictionary.ofList (point.parameters settings profile quick seed)) =
      .ok ((Dictionary.ofList (point.parameters settings profile quick seed)).mapValues
        canonicalValue) := by
  have hkeys : ∀ key, key ∈
      (Dictionary.ofList (point.parameters settings profile quick seed)).keys ↔
        key ∈ point.kind.parameterKeys := by
    intro key
    rw [Dictionary.mem_keys_ofList, Point.keys_parameters]
  obtain ⟨hprobability, hrun⟩ := point.kind.parameterKeys_common
  have hfixed : ∀ key ∈ (fixedSettings (φ := φ) point.kind.target).map Prod.fst,
      key ∈ (Dictionary.ofList (point.parameters settings profile quick seed)).keys := by
    intro key hkey
    rw [point.kind.keys_fixedSettings] at hkey
    exact (hkeys key).mpr (point.kind.fixedKeys_subset key hkey)
  have hrename : renameRun point.kind.target
      (Dictionary.ofList (point.parameters settings profile quick seed)) =
        .ok (Dictionary.ofList (point.parameters settings profile quick seed)) := by
    rw [renameRun, rename_of_notMem ((hkeys _).not.mpr hrun), ite_self]
  rw [canonicalParameters, rename_of_notMem ((hkeys _).not.mpr hprobability)]
  refine bind_eq_ok.mpr ⟨_, rfl, bind_eq_ok.mpr ⟨_, hrename, ?_⟩⟩
  rw [setdefaults_of_mem hfixed]
  rfl

end Reading

/-! ## Values -/

/-- A literal up to the kind of its number. -/
def Scalar.exact : Scalar ℚ → Scalar ℚ
  | .number x => .number (.float x.value)
  | x => x

/-- Equal values: numbers are compared by value. -/
def Same (x y : Scalar ℚ) : Prop :=
  x.exact = y.exact

instance (x y : Scalar ℚ) : Decidable (Same x y) :=
  inferInstanceAs (Decidable (x.exact = y.exact))

/-- The numbers of the settings, and the derived retry timeouts, have at most fifteen
significant digits. -/
structure ExactDigits (settings : Settings ℚ) : Prop where
  numbers : ∀ key x, .number x ∈ (settings key).values → DecimalText.HasDigits 15 x.value
  timeouts : (settings controllerRetryTimeout).scalar = .str "auto" →
    ∀ retransmit reforward temporary delay processing loss : Scalar ℚ,
      (Point.statim retransmit reforward temporary delay processing loss).On settings →
        DecimalText.HasDigits 15 (retryTimeout settings delay loss).toNumber.value

/-- An option agrees with a recorded parameter. -/
def Agrees (parameters : List (String × Scalar ℚ)) (option : String × String) : Prop :=
  ∃ value, (finalKey option.1, value) ∈ parameters ∧
    Same (canonicalValue (finalKey option.1) (finalValue option))
      (canonicalValue (finalKey option.1) value)

/-- An option that is read as a number under a key. -/
def Numeric (option key : String) : Prop :=
  finalKey option = key ∧ optionName option ≠ "stateful_delay_s" ∧ key ∉ booleanFields

/-- An option that is read as a boolean under a key. -/
def Boolean (option key : String) : Prop :=
  finalKey option = key ∧ optionName option ≠ "stateful_delay_s" ∧ key ∈ booleanFields

instance (option key : String) : Decidable (Numeric option key) :=
  inferInstanceAs (Decidable (_ ∧ _ ∧ _))

instance (option key : String) : Decidable (Boolean option key) :=
  inferInstanceAs (Decidable (_ ∧ _ ∧ _))

theorem scalar_of_read {text : String} {q : ℚ} (h : DecimalText.read text = some q) :
    scalar (.str text) = (.number (.float q) : Scalar ℚ) := by
  have htrue : DecimalText.read "true" = none := by decide
  have hfalse : DecimalText.read "false" = none := by decide
  have hne : ¬(text = "true" ∨ text = "false") := by
    rintro (rfl | rfl)
    · exact absurd (htrue.symm.trans h) (by simp)
    · exact absurd (hfalse.symm.trans h) (by simp)
  have hparse : parse text = some q := h
  simp only [scalar, if_neg hne, hparse]

variable {parameters : List (String × Scalar ℚ)} {option : String}

theorem agrees_of_read {key text : String} {x : Number ℚ} (hnumeric : Numeric option key)
    (hread : DecimalText.read text = some x.value) (hmem : (key, .number x) ∈ parameters) :
    Agrees parameters (option, text) := by
  obtain ⟨rfl, hdelay, hplain⟩ := hnumeric
  refine ⟨.number x, hmem, ?_⟩
  simp only [finalValue, if_neg hdelay, canonicalValue, if_neg hplain, scalar_of_read hread]
  rfl

/-- A formatted number is read back. -/
theorem agrees_number (key : String) {x : Number ℚ} (hnumeric : Numeric option key)
    (hdigits : DecimalText.HasDigits 15 x.value) (hmem : (key, .number x) ∈ parameters) :
    Agrees parameters (option, number (.number x)) :=
  agrees_of_read hnumeric (DecimalText.read_general (by decide) hdigits) hmem

theorem agrees_int (key : String) {n : ℤ} (hnumeric : Numeric option key)
    (hmem : (key, .int n) ∈ parameters) : Agrees parameters (option, toString n) :=
  agrees_of_read (x := .int n) hnumeric (DecimalText.read_toString n) hmem

/-- A boolean is written as a digit, which the common vocabulary undoes. -/
theorem agrees_bool (key : String) {b : Bool} (hboolean : Boolean option key)
    (hmem : (key, .bool b) ∈ parameters) :
    Agrees parameters (option, number (.bool b : Scalar ℚ)) := by
  obtain ⟨rfl, hdelay, hfield⟩ := hboolean
  refine ⟨.bool b, hmem, ?_⟩
  have hread : DecimalText.read (number (.bool b : Scalar ℚ)) = some (if b then 1 else 0) := by
    cases b with
    | false => exact (DecimalText.read_toString 0).trans (by simp)
    | true => exact (DecimalText.read_toString 1).trans (by simp)
  simp only [finalValue, if_neg hdelay, canonicalValue, if_pos hfield, scalar_of_read hread]
  cases b <;> rfl

theorem agrees_join {join : Scalar ℚ} (h : ∃ s ∈ ["rendezvous", "middle"], join = .str s)
    (hmem : ("consumer_join", join) ∈ parameters) :
    Agrees parameters ("consumerJoin", join.toStr) := by
  refine ⟨join, hmem, ?_⟩
  obtain ⟨s, hs, rfl⟩ := h
  simp only [List.mem_cons, List.not_mem_nil, or_false] at hs
  rcases hs with rfl | rfl
  · decide
  · decide

/-- The processing delay goes to seconds and back. -/
theorem agrees_statefulDelay {x : Number ℚ} (hdigits : DecimalText.HasDigits 15 x.value)
    (hmem : ("stateful_delay_us", .number x) ∈ parameters) :
    Agrees parameters ("statefulDelay", number (statefulSeconds (.number x))) := by
  have hdelay : optionName "statefulDelay" = "stateful_delay_s" := by decide
  have hkey : finalKey "statefulDelay" = "stateful_delay_us" := if_pos hdelay
  have hseconds : x.value / 1000000 = x.value * 10 ^ (-6 : ℤ) := by
    rw [div_eq_mul_inv]
    norm_num
  have hshift := hdigits.shift (-6)
  rw [← hseconds] at hshift
  have hread : DecimalText.read (number (statefulSeconds (.number x))) =
      some (x.value / 1000000) :=
    DecimalText.read_general (by decide) hshift
  refine ⟨.number x, hkey ▸ hmem, ?_⟩
  have hplain : "stateful_delay_us" ∉ booleanFields := by decide
  simp only [finalValue, if_pos hdelay, hkey, canonicalValue, if_neg hplain,
    scalar_of_read hread, Scalar.toNumber]
  refine congrArg (fun q => Scalar.number (.float q)) ?_
  rw [Number.value_mul]
  exact div_mul_cancel₀ x.value (by norm_num)

/-! ## The options of a point agree -/

section Points

variable {settings : Settings ℚ} {profile : Profile} {quick : Quick ℚ} {seed : ℤ}
  {point : Point ℚ}

/-- An entry of a numeric axis is a number with few digits. -/
theorem exists_number (h : Typed settings) (hexact : ExactDigits settings) (key : Parameter)
    (hkey : key ∈ numericKeys) {item : Scalar ℚ} (hmem : item ∈ (settings key).values) :
    ∃ x, item = .number x ∧ DecimalText.HasDigits 15 x.value := by
  obtain ⟨x, rfl⟩ := h.numbers key hkey item hmem
  exact ⟨x, rfl, hexact.numbers key x hmem⟩

theorem agrees_numeric (h : Typed settings) (hexact : ExactDigits settings) (setting : Parameter)
    (key : String) (hsetting : setting ∈ numericKeys) {item : Scalar ℚ}
    (hitem : item ∈ (settings setting).values) (hnumeric : Numeric option key)
    (hmem : (key, item) ∈ parameters) : Agrees parameters (option, number item) := by
  obtain ⟨x, rfl, hdigits⟩ := exists_number h hexact setting hsetting hitem
  exact agrees_number key hnumeric hdigits hmem

theorem agrees_boolean (h : Typed settings) (setting : Parameter) (key : String)
    (hsetting : setting ∈ booleanKeys) {item : Scalar ℚ} (hitem : item ∈ (settings setting).values)
    (hboolean : Boolean option key) (hmem : (key, item) ∈ parameters) :
    Agrees parameters (option, number item) := by
  obtain ⟨b, rfl⟩ := h.booleans setting hsetting item hitem
  exact agrees_bool key hboolean hmem

theorem Typed.scalar_mem (h : Typed settings) {key : Parameter} (hkey : key ∉ arrayKeys) :
    (settings key).scalar ∈ (settings key).values :=
  Value.scalar_mem_values (h.single key hkey)

/-- The common options are numbers of their settings. -/
theorem numeric_commonOptions : ∀ e ∈ commonOptions,
    Numeric e.2 e.1.name ∧ e.1 ∈ numericKeys ∧ e.1 ∉ arrayKeys := by
  decide

theorem agrees_networkOptions (h : Typed settings) (hexact : ExactDigits settings)
    {system topology : String} {retransmit reforward : Scalar ℚ}
    (hretransmit : retransmit ∈ (settings consumerRetransmissions).values)
    (hreforward : reforward ∈ (settings interestReforwarding).values)
    (hparameters : ∀ e ∈ Point.networkParameters settings system topology retransmit reforward,
      e ∈ parameters) :
    ∀ option ∈ Point.networkOptions settings retransmit reforward, Agrees parameters option := by
  rw [Point.networkOptions, List.forall_mem_append]
  rw [Point.networkParameters, List.forall_mem_append] at hparameters
  obtain ⟨hcommon, hothers⟩ := hparameters
  constructor
  · intro option hoption
    obtain ⟨e, he, rfl⟩ := List.mem_map.mp hoption
    obtain ⟨hnumeric, hkey, hsingle⟩ := numeric_commonOptions e he
    exact agrees_numeric h hexact e.1 e.1.name hkey (h.scalar_mem hsingle) hnumeric
      (hcommon _ (List.mem_map_of_mem he))
  · have hmem : ("consumer_retransmissions", retransmit) ∈ parameters := hothers _ (by simp)
    have hmem' : ("interest_reforwarding", reforward) ∈ parameters := hothers _ (by simp)
    rw [List.forall_mem_cons, List.forall_mem_singleton]
    exact ⟨agrees_boolean h consumerRetransmissions _ (by decide) hretransmit (by decide)
        hmem,
      agrees_boolean h interestReforwarding _ (by decide) hreforward (by decide) hmem'⟩

theorem agrees_localOptions (h : Typed settings) (hexact : ExactDigits settings)
    {temporary delay processing : Scalar ℚ}
    (htemporary : temporary ∈ (settings temporaryForwarding).values)
    (hdelay : delay ∈ (settings controllerDelay).values)
    (hprocessing : processing ∈ (settings statefulDelay).values)
    (hparameters : ∀ e ∈ Point.localParameters temporary delay processing, e ∈ parameters) :
    ∀ option ∈ Point.localOptions temporary delay processing, Agrees parameters option := by
  simp only [Point.localParameters, List.forall_mem_cons, List.not_mem_nil,
    IsEmpty.forall_iff, implies_true, and_true] at hparameters
  obtain ⟨hmem, hmem', hmem''⟩ := hparameters
  simp only [Point.localOptions, List.forall_mem_cons, List.not_mem_nil,
    IsEmpty.forall_iff, implies_true, and_true]
  refine ⟨?_, ?_, ?_⟩
  · exact agrees_boolean h temporaryForwarding _ (by decide) htemporary (by decide) hmem
  · exact agrees_numeric h hexact controllerDelay _ (by decide) hdelay (by decide) hmem'
  · obtain ⟨x, rfl, hdigits⟩ := exists_number h hexact statefulDelay (by decide) hprocessing
    exact agrees_statefulDelay hdigits hmem''

theorem agrees_statimOptions (h : Typed settings) (hexact : ExactDigits settings)
    (hparameters : ∀ e ∈ statimOptions.map fun e => (e.1.name, (settings e.1).scalar),
      e ∈ parameters) :
    ∀ option ∈ statimOptions.map fun e => (e.2, number (settings e.1).scalar),
      Agrees parameters option := by
  simp only [statimOptions, List.map_cons, List.map_nil, List.forall_mem_cons,
    List.not_mem_nil, IsEmpty.forall_iff, implies_true, and_true] at hparameters ⊢
  obtain ⟨hmem, hmem', hmem''⟩ := hparameters
  refine ⟨?_, ?_, ?_⟩
  · exact agrees_numeric h hexact interestReforwardingLimit _ (by decide)
      (h.scalar_mem (by decide)) (by decide) hmem
  · exact agrees_boolean h generationGuard _ (by decide) (h.scalar_mem (by decide))
      (by decide) hmem'
  · exact agrees_numeric h hexact controllerRetryLimit _ (by decide) (h.scalar_mem (by decide))
      (by decide) hmem''

/-- The retry timeout of a point is a number with few digits. -/
theorem exists_retryTimeout (h : Typed settings) (hexact : ExactDigits settings)
    {retransmit reforward temporary delay processing loss : Scalar ℚ}
    (hon : (Point.statim retransmit reforward temporary delay processing loss).On settings) :
    ∃ x, retryTimeout settings delay loss = .number x ∧ DecimalText.HasDigits 15 x.value := by
  rcases h.timeout with hauto | ⟨x, hx⟩
  · have hderived : ∃ x, retryTimeout settings delay loss = .number x := by
      rw [retryTimeout, hauto]
      rw [if_pos (by simp)]
      split_ifs
      · exact ⟨_, rfl⟩
      · exact ⟨_, rfl⟩
    obtain ⟨x, hx⟩ := hderived
    have hdigits := hexact.timeouts hauto _ _ _ _ _ _ hon
    rw [hx] at hdigits
    exact ⟨x, hx, hdigits⟩
  · refine ⟨x, ?_, hexact.numbers _ x (hx ▸ h.scalar_mem (by decide))⟩
    rw [retryTimeout, hx]
    rfl

/-- Every option of a point agrees with a recorded parameter. -/
theorem agrees_options (h : Typed settings) (hexact : ExactDigits settings)
    (hon : point.On settings) : ∀ option ∈ point.options settings profile quick seed,
      Agrees (point.parameters settings profile quick seed) option := by
  cases point with
  | kite retransmit reforward =>
      obtain ⟨-, -, hretransmit, hreforward⟩ := hon
      simp only [Point.options, Point.parameters, List.forall_mem_append,
        List.forall_mem_singleton]
      constructor
      · exact agrees_networkOptions h hexact hretransmit hreforward
          fun e he => List.mem_append_left _ he
      · exact agrees_int "seed" (by decide) (List.mem_append_right _ (by simp))
  | statim retransmit reforward temporary delay processing loss =>
      obtain ⟨x, hx, hdigits⟩ := exists_retryTimeout h hexact hon
      obtain ⟨-, -, hretransmit, hreforward, htemporary, hdelay, hprocessing, hloss⟩ := hon
      simp only [Point.options, Point.parameters, List.forall_mem_append, List.forall_mem_cons,
        List.not_mem_nil, IsEmpty.forall_iff, implies_true, and_true]
      refine ⟨⟨⟨?_, ?_⟩, ?_⟩, ?_, ?_, ?_⟩
      · exact agrees_networkOptions h hexact hretransmit hreforward fun e he =>
          List.mem_append_left _ (List.mem_append_left _ (List.mem_append_left _ he))
      · exact agrees_localOptions h hexact htemporary hdelay hprocessing fun e he =>
          List.mem_append_left _ (List.mem_append_left _ (List.mem_append_right _ he))
      · exact agrees_statimOptions h hexact fun e he =>
          List.mem_append_left _ (List.mem_append_right _ he)
      · exact agrees_numeric h hexact completionNoticeLoss "completion_notice_loss" (by decide)
          hloss (by decide) (List.mem_append_right _ (by simp))
      · rw [hx]
        exact agrees_number "controller_retry_timeout_s" (by decide) hdigits
          (List.mem_append_right _ (by simp))
      · exact agrees_int "seed" (by decide) (List.mem_append_right _ (by simp))
  | path retransmit reforward temporary delay processing hops join =>
      obtain ⟨-, hretransmit, hreforward, htemporary, hdelay, hprocessing, hhops, hjoin⟩ := hon
      simp only [Point.options, Point.parameters, List.forall_mem_append, List.forall_mem_cons,
        List.not_mem_nil, IsEmpty.forall_iff, implies_true, and_true]
      refine ⟨⟨?_, ?_⟩, ?_, ?_, ?_⟩
      · exact agrees_networkOptions h hexact hretransmit hreforward fun e he =>
          List.mem_append_left _ (List.mem_append_left _ he)
      · exact agrees_localOptions h hexact htemporary hdelay hprocessing fun e he =>
          List.mem_append_left _ (List.mem_append_right _ he)
      · exact agrees_numeric h hexact tracePathHops "trace_path_hops" (by decide) hhops
          (by decide) (List.mem_append_right _ (by simp))
      · exact agrees_join (h.joins join hjoin) (List.mem_append_right _ (by simp))
      · exact agrees_int "seed" (by decide) (List.mem_append_right _ (by simp))
  | occupancy rate delay burst =>
      obtain ⟨-, hrate, hdelay, hburst⟩ := hon
      simp only [Point.options, Point.parameters, List.forall_mem_cons, List.not_mem_nil,
        IsEmpty.forall_iff, implies_true, and_true]
      refine ⟨?_, ?_, ?_, ?_, ?_⟩
      · exact agrees_numeric h hexact arrivalRate "arrival_rate_per_s" (by decide) hrate
          (by decide) (by simp)
      · exact agrees_numeric h hexact controllerDelay "controller_delay_s" (by decide) hdelay
          (by decide) (by simp)
      · obtain ⟨n, rfl⟩ := h.integers initialBurst (by decide) burst hburst
        exact agrees_int "initial_burst" (by decide) (by simp)
      · exact agrees_int "arrival_count" (by decide) (by simp)
      · exact agrees_int "seed" (by decide) (by simp)

/-- What the program fixes is recorded. -/
theorem mem_fixedSettings (hon : point.On settings) : ∀ f ∈ fixedSettings point.kind.target,
    f ∈ point.parameters settings profile quick seed := by
  cases point with
  | kite retransmit reforward =>
      have hscenario := hon.1
      simp [Point.kind, Kind.target, fixedSettings, networkTargets, Point.parameters,
        Point.networkParameters, hscenario]
  | statim retransmit reforward temporary delay processing loss =>
      have hscenario := hon.1
      simp [Point.kind, Kind.target, fixedSettings, networkTargets, Point.parameters,
        Point.networkParameters, hscenario]
  | path retransmit reforward temporary delay processing hops join =>
      have hscenario := hon.1
      simp [Point.kind, Kind.target, fixedSettings, networkTargets, Point.parameters,
        Point.networkParameters, hscenario]
  | occupancy rate delay burst =>
      simp [Point.kind, Kind.target, fixedSettings, networkTargets, Point.parameters]

/-- The reconstructed parameters are the recorded ones. -/
theorem matches_reconstruction (h : Typed settings) (hexact : ExactDigits settings)
    (hon : point.On settings) {d : Dictionary String (Scalar ℚ)}
    (hd : canonicalParameters point.kind.target
      (point.reconstruction settings profile quick seed) = .ok d) :
    Dictionary.Matches Same d
      ((Dictionary.ofList (point.parameters settings profile quick seed)).mapValues
        canonicalValue) := by
  obtain ⟨d', hd', hentries⟩ := canonical_reconstruction settings profile quick seed point
  obtain rfl := Except.ok.inj (hd'.symm.trans hd)
  have hnodup : ((point.parameters settings profile quick seed).map Prod.fst).Nodup :=
    Point.keys_parameters settings profile quick seed point ▸ point.kind.nodup_parameterKeys
  have hrecorded : ∀ e, e ∈ ((Dictionary.ofList
      (point.parameters settings profile quick seed)).mapValues canonicalValue).entries ↔
        ∃ f ∈ point.parameters settings profile quick seed,
          e = (f.1, canonicalValue f.1 f.2) := by
    intro e
    rw [Dictionary.mem_entries_mapValues, Dictionary.entries_ofList hnodup]
  refine Dictionary.matches_of_entries (fun key value hmem => ?_) fun key hkey => ?_
  · rcases (hentries _).mp hmem with ⟨option, hoption, heq⟩ | ⟨f, hf, heq⟩
    · obtain ⟨rfl, rfl⟩ := Prod.mk.inj heq
      obtain ⟨recorded, hrecord, hsame⟩ := agrees_options h hexact hon option hoption
      exact ⟨_, (hrecorded _).mpr ⟨_, hrecord, rfl⟩, hsame⟩
    · obtain ⟨rfl, rfl⟩ := Prod.mk.inj heq
      exact ⟨_, (hrecorded _).mpr ⟨f, mem_fixedSettings hon f hf, rfl⟩, rfl⟩
  · obtain ⟨value, hmem⟩ := Dictionary.exists_of_mem_keys hkey
    obtain ⟨f, hf, heq⟩ := (hrecorded _).mp hmem
    obtain rfl : key = f.1 := congrArg Prod.fst heq
    have hparameter : f.1 ∈ point.kind.parameterKeys := by
      rw [← Point.keys_parameters settings profile quick seed point]
      exact List.mem_map_of_mem hf
    rcases point.kind.parameterKeys_subset f.1 hparameter with hkey | hkey
    · rw [← Point.keys_options settings profile quick seed point, List.map_map] at hkey
      obtain ⟨option, hoption, hfinal⟩ := List.mem_map.mp hkey
      exact Dictionary.mem_keys_of_mem
        ((hentries _).mpr (Or.inl ⟨option, hoption, by rw [← hfinal]; rfl⟩))
    · rw [← point.kind.keys_fixedSettings (φ := ℚ)] at hkey
      obtain ⟨fixed, hfixed, hname⟩ := List.mem_map.mp hkey
      exact Dictionary.mem_keys_of_mem
        ((hentries _).mpr (Or.inr ⟨fixed, hfixed, by rw [← hname]⟩))

end Points

/-! ## Runs and jobs -/

/-- Both runs have the same effective parameters. -/
def Equivalent (run run' : Run ℚ) : Prop :=
  ∃ d d', Experiments.parameters run = .ok d ∧ Experiments.parameters run' = .ok d' ∧
    Dictionary.Matches Same d d'

theorem Equivalent.symm {run run' : Run ℚ} (h : Equivalent run run') : Equivalent run' run := by
  obtain ⟨d, d', hd, hd', hmatches⟩ := h
  exact ⟨d', d, hd', hd, hmatches.symm fun _ _ => Eq.symm⟩

theorem Equivalent.trans {run run' run'' : Run ℚ} (h : Equivalent run run')
    (h' : Equivalent run' run'') : Equivalent run run'' := by
  obtain ⟨d, d', hd, hd', hmatches⟩ := h
  obtain ⟨e, d'', he, hd'', hmatches'⟩ := h'
  obtain rfl := Except.ok.inj (hd'.symm.trans he)
  exact ⟨d, d'', hd, hd'', hmatches.trans (fun _ _ _ => Eq.trans) hmatches'⟩

/-- The run without its recorded parameters. -/
def Run.unrecorded {φ : Type} (run : Run φ) : Run φ :=
  { run with parameters := Dictionary.empty }

section Runs

variable {settings : Settings ℚ} {profile : Profile} {quick : Quick ℚ} {seed : ℤ}
  {point : Point ℚ} {run : Run ℚ}

theorem parameters_unrecorded (htarget : run.target = point.kind.target)
    (hargv : bareArgv run.argv = point.argv settings profile quick seed) :
    Experiments.parameters run.unrecorded = canonicalParameters point.kind.target
      (point.reconstruction settings profile quick seed) := by
  have hreconstruct := reconstruct_bareArgv (φ := ℚ) run.argv point.kind.target_ne_microbenchmark
  rw [hargv] at hreconstruct
  have hnone : run.unrecorded.parameters.entries = [] := rfl
  have hsame : run.unrecorded.target = point.kind.target := htarget
  rw [Experiments.parameters, if_pos hnone, hsame]
  exact congrArg (canonicalParameters _) hreconstruct.symm

theorem parameters_recorded (htarget : run.target = point.kind.target)
    (hparameters : run.parameters =
      Dictionary.ofList (point.parameters settings profile quick seed)) :
    Experiments.parameters run = .ok ((Dictionary.ofList
      (point.parameters settings profile quick seed)).mapValues canonicalValue) := by
  have hkeys := Point.keys_parameters settings profile quick seed point
  have hentries := Dictionary.entries_ofList (hkeys ▸ point.kind.nodup_parameterKeys :
    ((point.parameters settings profile quick seed).map Prod.fst).Nodup)
  have hne : run.parameters.entries ≠ [] := by
    rw [hparameters, hentries]
    intro hnil
    rw [hnil] at hkeys
    exact absurd hkeys (by cases point.kind <;> decide)
  rw [Experiments.parameters, if_neg hne, htarget, hparameters, canonical_recorded]

/-- The command line of a run of a point describes the recorded parameters. -/
theorem equivalent_unrecorded (h : Typed settings) (hexact : ExactDigits settings)
    (hon : point.On settings) (htarget : run.target = point.kind.target)
    (hargv : bareArgv run.argv = point.argv settings profile quick seed)
    (hparameters : run.parameters =
      Dictionary.ofList (point.parameters settings profile quick seed)) :
    Equivalent run.unrecorded run := by
  obtain ⟨d, hd, -⟩ := canonical_reconstruction settings profile quick seed point
  exact ⟨d, _, (parameters_unrecorded htarget hargv).trans hd,
    parameters_recorded htarget hparameters, matches_reconstruction h hexact hon hd⟩

theorem equivalent_check {target : String} (hprogram : target ∈ checkPrograms) :
    Equivalent (checkRun target).unrecorded (checkRun target) := by
  have hsame : ∀ target ∈ checkPrograms,
      Experiments.parameters (checkRun target).unrecorded =
        Experiments.parameters (checkRun target : Run ℚ) ∧
      (Experiments.parameters (checkRun target : Run ℚ)).isOk = true := by
    simp only [checkPrograms, List.forall_mem_cons, List.not_mem_nil, IsEmpty.forall_iff,
      implies_true, and_true]
    exact ⟨⟨rfl, rfl⟩, ⟨rfl, rfl⟩, ⟨rfl, rfl⟩, rfl, rfl⟩
  obtain ⟨heq, hok⟩ := hsame target hprogram
  cases hd : Experiments.parameters (checkRun target : Run ℚ) with
  | error message =>
      rw [hd] at hok
      cases hok
  | ok d => exact ⟨d, d, heq.trans hd, hd,
      Dictionary.Matches.refl (fun x => (rfl : Same x x)) d⟩

end Runs

section Configurations

variable {config : Config ℚ} {sha256 : String → String}

/-- Command lines and recorded parameters describe the same runs. -/
structure Reconstructs (sha256 : String → String) (config : Config ℚ) : Prop where
  jobs : ∀ profile microbenchmark expanded,
    expand sha256 config profile microbenchmark = .ok expanded →
      ∀ job ∈ expanded, job.phase = .simulation → Equivalent job.toRun.unrecorded job.toRun
  merged : ∀ profile name settings views name' settings' views',
    config.Enabled name settings views → config.Enabled name' settings' views' →
      ∀ run ∈ runs settings profile config.quick, ∀ run' ∈ runs settings' profile config.quick,
        run.target = run'.target → run.argv = run'.argv → Equivalent run run'

theorem equivalent_of_mem_runs {settings : Settings ℚ} {profile : Profile} {quick : Quick ℚ}
    {run : Run ℚ} (h : Typed settings) (hexact : ExactDigits settings)
    (hrun : run ∈ runs settings profile quick) : Equivalent run.unrecorded run := by
  obtain ⟨point, hon, seed, -, rfl⟩ := (mem_runs h).mp hrun
  refine equivalent_unrecorded h hexact hon hon.run_target ?_ hon.run_parameters
  have hplain : Plain ⟨point.run settings profile quick seed, "", [], none⟩ := hon.plain
  rw [← hon.run_argv]
  exact hplain.argv

/-- In an accepted configuration whose numbers have at most fifteen significant digits, the
command line of every simulation job gives back its recorded parameters, and runs that are
merged have the same ones. -/
theorem reconstructs_of_validateConfig (hvalid : validateConfig config = .ok ())
    (hexact : ∀ name settings views, config.Enabled name settings views →
      ExactDigits settings) : Reconstructs sha256 config := by
  obtain ⟨found, hfound⟩ := effectiveExperiments_of_validateConfig hvalid
  constructor
  · intro profile microbenchmark expanded hexpand job hmem hphase
    obtain ⟨requests, registered, hregistered, rfl, hsource, -⟩ := registered_of_expand hexpand
    obtain ⟨⟨key, job⟩, hentry, rfl⟩ := List.mem_map.mp hmem
    obtain ⟨request, hrequest, -, hrun, -, -⟩ := (hregistered.stands key job hentry).origin
    dsimp only at hphase ⊢
    rw [hrun] at hphase ⊢
    have hplain := (hsource request hrequest).plain
    have hbare := bareArgv_newJob hplain job.name
    cases hsource request hrequest with
    | @point name settings views point seed henabled hon hseed =>
        have htyped := typed_of_enabled hfound henabled
        refine equivalent_unrecorded htyped (hexact name settings views henabled) hon ?_
          (hbare.trans hon.run_argv) ?_
        · exact (newJob_target _ _).trans hon.run_target
        · exact (newJob_parameters _ _).trans hon.run_parameters
    | @check target hprogram =>
        have hfamily : checkFamily target ≠ .occupancy := by
          intro heq
          have hrun := checkFamily_isRun target
          rw [heq] at hrun
          cases hrun
        rw [newJob_of_ne hfamily]
        exact equivalent_check hprogram
    | microbenchmark invocation => cases hphase
  · intro profile name settings views name' settings' views' henabled henabled' run hrun run' hrun'
      htarget hargv
    have h := equivalent_of_mem_runs (typed_of_enabled hfound henabled)
      (hexact name settings views henabled) hrun
    have h' := equivalent_of_mem_runs (typed_of_enabled hfound henabled')
      (hexact name' settings' views' henabled') hrun'
    -- both are read from the same command line
    have hsame :
        Experiments.parameters run.unrecorded = Experiments.parameters run'.unrecorded := by
      simp only [Run.unrecorded, Experiments.parameters, htarget, hargv]
      rfl
    obtain ⟨d, d', hd, hd', hmatches⟩ := h'
    exact h.symm.trans ⟨d, d', hsame.trans hd, hd', hmatches⟩

end Configurations

/-- A multiple of a tenth that is not too large has few digits. -/
theorem hasDigits_of_tenths {q : ℚ} (hden : (q * 10).den = 1) (hnum : |(q * 10).num| < 10 ^ 15) :
    DecimalText.HasDigits 15 q := by
  refine ⟨(q * 10).num, -1, hnum, ?_⟩
  rw [Rat.coe_int_num_of_den_eq_one hden, zpow_neg_one]
  exact (mul_inv_cancel_right₀ (by norm_num) q).symm

/-- The settings of the sample have few digits. -/
theorem exactDigits_sample {settings : Settings ℚ}
    (hmem : settings ∈ [lossSettings, systemsSettings, pathsSettings, occupancySettings]) :
    ExactDigits settings := by
  have htenths : ∀ settings ∈ [lossSettings, systemsSettings, pathsSettings, occupancySettings],
      ∀ key ∈ Parameter.all, ∀ item ∈ (settings key).values,
        (item.toNumber.value * 10).den = 1 ∧ |(item.toNumber.value * 10).num| < 10 ^ 15 := by
    decide +kernel
  have htimeouts : ∀ settings ∈ [lossSettings, systemsSettings, pathsSettings, occupancySettings],
      ∀ delay ∈ (settings controllerDelay).values,
        ∀ loss ∈ (settings completionNoticeLoss).values,
          ((retryTimeout settings delay loss).toNumber.value * 10).den = 1 ∧
            |((retryTimeout settings delay loss).toNumber.value * 10).num| < 10 ^ 15 := by
    decide +kernel
  constructor
  · intro key x hitem
    obtain ⟨hden, hnum⟩ := htenths settings hmem key key.mem_all _ hitem
    exact hasDigits_of_tenths hden hnum
  · intro _ retransmit reforward temporary delay processing loss hon
    obtain ⟨-, -, -, -, -, hdelay, -, hloss⟩ := hon
    obtain ⟨hden, hnum⟩ := htimeouts settings hmem delay hdelay loss hloss
    exact hasDigits_of_tenths hden hnum

/-- The jobs of the sample run all four programs, and their command lines give back what
they record. -/
theorem reconstructs_sampleConfig : ∃ expanded,
    expand sampleDigest sampleConfig .quick none = .ok expanded ∧
      (∀ kind : Kind, ∃ job ∈ expanded, job.target = kind.target) ∧
      Reconstructs sampleDigest sampleConfig := by
  obtain ⟨expanded, hexpand⟩ := expand_sampleConfig
  refine ⟨expanded, hexpand, fun kind => ?_, reconstructs_of_validateConfig
    validateConfig_sampleConfig fun _ _ _ henabled =>
      exactDigits_sample (settings_of_enabled henabled)⟩
  have hkind : ∃ e ∈ sampleDigests, e.1.2.kind = kind := by
    cases kind with
    | kite => exact ⟨sampleDigests[2], List.getElem_mem _, rfl⟩
    | statim => exact ⟨sampleDigests[0], List.getElem_mem _, rfl⟩
    | path => exact ⟨sampleDigests[3], List.getElem_mem _, rfl⟩
    | occupancy => exact ⟨sampleDigests[4], List.getElem_mem _, rfl⟩
  obtain ⟨e, he, rfl⟩ := hkind
  obtain ⟨hon, hseed, name, views, henabled⟩ := sampleDigests_on e he
  obtain ⟨job, hjob, htarget, -⟩ :=
    shared_of_expand hexpand henabled henabled e.1.2 hon hon hseed hseed rfl
  exact ⟨job, hjob, htarget⟩

end Statim.Experiments
