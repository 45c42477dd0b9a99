import Statim.Engine.NonceIntegrity
import Statim.Engine.Reforwarding

/-!
# Where events and packets come from

A second inversion lemma says which events a step adds, what it sends and which
buffers it overwrites: an Interest that waits was accepted in the same step, Data
that waits has arrived in it, and an Interest that is sent again is a pending one
under the prefix of a Trace Data.  Invariants about names, Nonces and lifetimes
are derived from it.
-/

namespace Statim

open Support SwitchPipeline

namespace ForwardingEngine

variable {cfg : EngineConfig} {w w' w₀ : EngineWorld} {p : Name}

/-! ## Pending Interests that are sent again -/

/-- The Interest is pending under this prefix. -/
def Pullable (p : Name) (w : EngineWorld) (interest : Interest) : Prop :=
  ∃ (n : Name) (entry : PendingEntry),
    w.env.rest.pit.entries[n]? = some entry ∧ p <+: n ∧ entry.interest = interest

/-- Some pending Interests under a prefix are sent again. -/
structure Pulls (p : Name) (w w' : EngineWorld) : Prop where
  pit : w'.env.rest.pit = w.env.rest.pit
  events : ∀ e ∈ w'.env.rest.events, e ∈ w.env.rest.events ∨
    ∃ interest retx port, Pullable p w interest ∧ retx.name = interest.name ∧
      retx.lifetime = interest.lifetime ∧ e.event = .doDelayedPullSend retx port
  kept : ∀ (buffer : Nat) (value : Bytes), w.env.rest.buffers[buffer]? = some value →
    w'.env.rest.buffers[buffer]? = some value ∨
      ∃ interest, Pullable p w interest ∧ interest.nonce = some buffer
  grows : w.env.rest.buffers.length ≤ w'.env.rest.buffers.length

theorem Pulls.of_eq (hpit : w'.env.rest.pit = w.env.rest.pit)
    (hevents : w'.env.rest.events = w.env.rest.events)
    (hbuffers : w'.env.rest.buffers = w.env.rest.buffers) : Pulls p w w' := by
  refine ⟨hpit, fun e he => Or.inl ?_, fun buffer value hvalue => Or.inl ?_, ?_⟩
  · rwa [hevents] at he
  · rwa [hbuffers]
  · rw [hbuffers]

theorem Pulls.trans {w'' : EngineWorld} (h : Pulls p w w') (h' : Pulls p w' w'') :
    Pulls p w w'' := by
  have hsame : ∀ interest, Pullable p w' interest → Pullable p w interest := by
    rintro interest ⟨n, entry, hentry, hn, heq⟩
    rw [h.pit] at hentry
    exact ⟨n, entry, hentry, hn, heq⟩
  refine ⟨h'.pit.trans h.pit, fun e he => ?_, fun buffer value hvalue => ?_,
    Nat.le_trans h.grows h'.grows⟩
  · rcases h'.events e he with hold | ⟨interest, retx, port, hpullable, hrest⟩
    · exact h.events e hold
    · exact Or.inr ⟨interest, retx, port, hsame interest hpullable, hrest⟩
  · rcases h.kept buffer value hvalue with hold | hpulled
    · rcases h'.kept buffer value hold with hkept | ⟨interest, hpullable, hnonce⟩
      · exact Or.inl hkept
      · exact Or.inr ⟨interest, hsame interest hpullable, hnonce⟩
    · exact Or.inr hpulled

/-- A refreshed Nonce is written in place or into a new buffer. -/
theorem refreshNonce_kept {word : UInt32 → UInt32} {buffers buffers' : Buffers}
    {interest retx : Interest}
    (h : interest.refreshNonce word buffers = some (retx, buffers')) :
    buffers.length ≤ buffers'.length ∧
      ∀ (buffer : Nat) (value : Bytes), buffers[buffer]? = some value →
        buffers'[buffer]? = some value ∨ interest.nonce = some buffer := by
  unfold Interest.refreshNonce at h
  split at h
  swap
  · cases h
    exact ⟨Nat.le_refl _, fun _ _ hvalue => Or.inl hvalue⟩
  obtain ⟨old, -, heq⟩ := Option.map_eq_some_iff.mp h
  rcases Interest.setNonce_cases (word old) buffers interest with
    ⟨own, hown, -, -, hset⟩ | hnew
  · rw [hset] at heq
    cases heq
    refine ⟨Nat.le_of_eq List.length_set.symm, fun buffer value hvalue => ?_⟩
    by_cases hsame : own = buffer
    · exact Or.inr (hsame ▸ hown)
    · rw [List.getElem?_set_ne hsame]
      exact Or.inl hvalue
  · rw [hnew] at heq
    cases heq
    refine ⟨by simp, fun buffer value hvalue => Or.inl ?_⟩
    exact getElem?_of_isPrefix (List.prefix_append _ _) hvalue

theorem pulls_pullAll (cfg : EngineConfig) (port : Port) (pending : List Interest)
    (h : ∀ i ∈ pending, Pullable p w i) :
    Pulls p w (Handled.world (pullAll cfg port pending w)) := by
  induction pending generalizing w with
  | nil => exact Pulls.of_eq rfl rfl rfl
  | cons interest rest ih =>
      rw [pullAll]
      split
      · exact Pulls.of_eq rfl rfl rfl
      next retx buffers hrefresh =>
        have hpullable := h interest List.mem_cons_self
        obtain ⟨hname, -, hlifetime⟩ := refreshNonce_frame hrefresh
        obtain ⟨hgrows, hkept⟩ := refreshNonce_kept hrefresh
        have hscheduled : Pulls p w (schedulePull retx buffers port w) := by
          refine ⟨rfl, fun e he => ?_, fun buffer value hvalue => ?_, hgrows⟩
          · rcases List.mem_append.mp he with hold | hnew
            · exact Or.inl hold
            · rw [List.mem_singleton.mp hnew]
              exact Or.inr ⟨interest, retx, port, hpullable, hname, hlifetime, rfl⟩
          · rcases hkept buffer value hvalue with hold | hown
            · exact Or.inl hold
            · exact Or.inr ⟨interest, hpullable, hown⟩
        refine hscheduled.trans (ih fun i hi => ?_)
        exact h i (List.mem_cons_of_mem interest hi)

theorem pulls_pullPendingInterests (cfg : EngineConfig) (p : Name) (port : Port)
    (w : EngineWorld) :
    Pulls p w (Handled.world (pullPendingInterests cfg p port w)) := by
  have hcounted : Pulls p w (count .pullInvocations w) := Pulls.of_eq rfl rfl rfl
  refine hcounted.trans (pulls_pullAll cfg port _ fun i hi => ?_)
  obtain ⟨n, entry, hentry, hn, heq⟩ :=
    PendingInterestTable.mem_findByPrefix.mp (List.mem_of_mem_take hi)
  exact ⟨n, entry, hentry, hn, heq⟩

theorem pulls_learnPort (cfg : EngineConfig) (p : Name) (seq : Nat) (lifetime : Int)
    (port : Port) (w : EngineWorld) :
    Pulls p w (Handled.world (learnPort cfg p seq lifetime port w)) := by
  unfold learnPort
  split
  · exact Pulls.of_eq rfl rfl rfl
  next updated w₁ hcall =>
    have hrest := (Loop.kept_applyTraceUpdate hcall).rest
    have hupdated : Pulls p w w₁ := Pulls.of_eq (congrArg EngineState.pit hrest)
      (congrArg EngineState.events hrest) (congrArg EngineState.buffers hrest)
    split
    · exact hupdated.trans (pulls_pullPendingInterests cfg p port w₁)
    · exact hupdated

theorem pulls_learnPorts (cfg : EngineConfig) (p : Name) (seq : Nat) (lifetime : Int)
    (ports : List Port) (w : EngineWorld) :
    Pulls p w (Handled.world (learnPorts cfg p seq lifetime ports w)) := by
  induction ports generalizing w with
  | nil => exact Pulls.of_eq rfl rfl rfl
  | cons port rest ih =>
      have hfirst := pulls_learnPort cfg p seq lifetime port w
      rw [learnPorts]
      split
      next e hraise =>
        rw [hraise] at hfirst
        exact hfirst
      next w₁ hok =>
        rw [hok] at hfirst
        exact hfirst.trans (ih w₁)

theorem pulls_handleTraceData (cfg : EngineConfig) (data : Data)
    (ports : Std.TreeSet Port) (lifetime : Int) (w : EngineWorld) :
    Pulls data.name.extractDataNameFromTrace w
      (Handled.world (handleTraceData cfg data ports lifetime w)) := by
  unfold handleTraceData
  split
  · exact Pulls.of_eq rfl rfl rfl
  split
  · exact Pulls.of_eq rfl rfl rfl
  next seq hseq =>
    dsimp only
    split
    · exact Pulls.of_eq rfl rfl rfl
    · have hcounted : Pulls data.name.extractDataNameFromTrace w
          (count .traceUpdatesHandled w) := Pulls.of_eq rfl rfl rfl
      exact hcounted.trans (pulls_learnPorts cfg _ seq lifetime _ _)

/-! ## What a step adds -/

/-- The events that an action adds. -/
inductive Spawns (w : EngineWorld) : EngineAction → EngineEvent → Prop
  | interest {inPort : Port} {packet : RawPacket} {interest : Interest} {nonce : Bytes}
      {header : PacketHeader} (hdecodes : Decodes w (.receive inPort packet) interest nonce)
      {pit : PendingInterestTable} (haccepts : Accepts w inPort packet interest.name pit) :
      Spawns w (.receive inPort packet) (.processInterestAfterDelay inPort interest header)
  | data {inPort : Port} {packet : RawPacket} {name : Name} {wire : Bytes}
      {hopCount : Option UInt8} {header : PacketHeader}
      (hpayload : packet.payload = .data name wire) :
      Spawns w (.receive inPort packet)
        (.processDataAfterDelay inPort ⟨name, wire, hopCount⟩ header)
  | pull {inPort : Port} {data : Data} {header : PacketHeader} {interest retx : Interest}
      {port : Port} (htrace : data.name.judgeNameIsTrace = true)
      (hpullable : Pullable data.name.extractDataNameFromTrace w interest)
      (hname : retx.name = interest.name) (hlifetime : retx.lifetime = interest.lifetime) :
      Spawns w (.fire (.processDataAfterDelay inPort data header))
        (.doDelayedPullSend retx port)

/-- What an action lets the surroundings see. -/
inductive Emits (w : EngineWorld) : EngineAction → EngineObs → Prop
  | accepted {inPort : Port} {packet : RawPacket} {name : Name} {pit : PendingInterestTable}
      (haccepts : Accepts w inPort packet name pit) :
      Emits w (.receive inPort packet) (.accepted inPort name)
  | cached {inPort : Port} {packet : RawPacket} {name : Name} {pit : PendingInterestTable}
      (haccepts : Accepts w inPort packet name pit) {data : Data}
      (hfind : w.env.rest.cs.find name = some data) :
      Emits w (.receive inPort packet) (.sentData inPort data)
  | forward {inPort port : Port} {interest encoded : Interest} {header : PacketHeader}
      (hencoded : interest.wireEncode = some encoded) :
      Emits w (.fire (.processInterestAfterDelay inPort interest header))
        (.sentInterest port encoded.name encoded.selectors
          (encoded.nonceValue w.env.rest.buffers) encoded.lifetime)
  | pull {port : Port} {interest encoded : Interest}
      (hencoded : interest.wireEncode = some encoded) :
      Emits w (.fire (.doDelayedPullSend interest port))
        (.sentInterest port encoded.name encoded.selectors
          (encoded.nonceValue w.env.rest.buffers) encoded.lifetime)
  | data {inPort port : Port} {data : Data} {header : PacketHeader}
      (hport : port ∈ (w.env.rest.pit.takeDataMatchPorts data.name).1) :
      Emits w (.fire (.processDataAfterDelay inPort data header)) (.sentData port data)

/-- Where the events, the log and the buffers after a step come from. -/
structure Trail (w : EngineWorld) (a : EngineAction) (w' : EngineWorld) : Prop where
  events : ∀ e ∈ w'.env.rest.events, e ∈ w.env.rest.events ∨ Spawns w a e.event
  log : ∃ news, w'.env.rest.log = w.env.rest.log ++ news ∧ ∀ o ∈ news, Emits w a o
  grows : w.env.rest.buffers.length ≤ w'.env.rest.buffers.length
  kept : ∀ (buffer : Nat) (value : Bytes), w.env.rest.buffers[buffer]? = some value →
    w'.env.rest.buffers[buffer]? = some value ∨
      ∃ inPort data header interest, a = .fire (.processDataAfterDelay inPort data header) ∧
        data.name.judgeNameIsTrace = true ∧
        Pullable data.name.extractDataNameFromTrace w interest ∧
        interest.nonce = some buffer

theorem Trail.of_eq {a : EngineAction}
    (hevents : ∀ e ∈ w'.env.rest.events, e ∈ w.env.rest.events ∨ Spawns w a e.event)
    (hlog : ∃ news, w'.env.rest.log = w.env.rest.log ++ news ∧ ∀ o ∈ news, Emits w a o)
    (hbuffers : w.env.rest.buffers <+: w'.env.rest.buffers) : Trail w a w' :=
  ⟨hevents, hlog, hbuffers.length_le,
    fun _ _ hvalue => Or.inl (getElem?_of_isPrefix hbuffers hvalue)⟩

theorem Trail.of_rest_eq {a : EngineAction} (h : w'.env.rest = w.env.rest) : Trail w a w' := by
  refine Trail.of_eq (fun e he => Or.inl ?_) ⟨[], ?_, by simp⟩ ?_
  · rwa [h] at he
  · rw [h, List.append_nil]
  · rw [h]

/-! ## Arrivals -/

/-- An Interest that waits was accepted when it arrived. -/
theorem spawned_onReceiveRawPacket (cfg : EngineConfig) (inPort : Port) (packet : RawPacket)
    (w : EngineWorld) :
    ∀ e ∈ (Handled.world (onReceiveRawPacket cfg inPort packet w)).env.rest.events,
      e ∈ w.env.rest.events ∨ Spawns w (.receive inPort packet) e.event := by
  unfold onReceiveRawPacket
  split
  · exact fun e he => Or.inl he
  next header hheader =>
  dsimp only
  split
  · exact fun e he => Or.inl he
  next hin =>
  split
  swap
  · exact fun e he => Or.inl he
  next hstateful =>
  have hreach : ReachesStateful w inPort packet :=
    ⟨header, hheader, (Bool.not_eq_true _).mp hin, hstateful⟩
  have hevents := (world_discardMalformed (processPayload cfg inPort header packet.payload w)).2
  intro e he
  rw [hevents] at he
  cases hpayload : packet.payload with
  | other =>
      rw [hpayload] at he
      exact Or.inl he
  | malformed =>
      rw [hpayload] at he
      exact Or.inl he
  | data name wire =>
      rw [hpayload] at he
      rcases List.mem_append.mp he with hold | hnew
      · exact Or.inl hold
      · rw [List.mem_singleton.mp hnew]
        exact Or.inr (.data hpayload)
  | interest name selectors nonce lifetime =>
      rw [hpayload] at he
      simp only [processPayload, processStatefulInterest] at he
      split at he
      · exact Or.inl he
      next result pit hinsert =>
      split at he
      · exact Or.inl he
      next haccepted =>
      split at he
      · exact Or.inl he
      rcases List.mem_append.mp he with hold | hnew
      · exact Or.inl hold
      · rw [List.mem_singleton.mp hnew]
        rw [Bool.not_eq_true, Bool.not_eq_false'] at haccepted
        have hdecodes : Decodes w (.receive inPort packet)
            (Interest.decode name selectors nonce lifetime w.env.rest.buffers).1 nonce :=
          ⟨inPort, packet, name, selectors, lifetime, rfl, hreach, hpayload, rfl⟩
        have haccepts : Accepts w inPort packet name pit :=
          ⟨hreach, selectors, nonce, lifetime, result, hpayload, hinsert, haccepted⟩
        exact Or.inr (.interest hdecodes haccepts)

theorem world_discardMalformed_log (r : Handled) :
    (Handled.world (discardMalformed r)).env.rest.log = (Handled.world r).env.rest.log := by
  unfold discardMalformed
  split
  · rfl
  · rfl

/-- An arrival shows at most an accepted Interest and a cached answer. -/
theorem emitted_onReceiveRawPacket (cfg : EngineConfig) (inPort : Port) (packet : RawPacket)
    (w : EngineWorld) :
    ∃ news, (Handled.world (onReceiveRawPacket cfg inPort packet w)).env.rest.log =
        w.env.rest.log ++ news ∧ ∀ o ∈ news, Emits w (.receive inPort packet) o := by
  unfold onReceiveRawPacket
  split
  · exact ⟨[], (List.append_nil _).symm, by simp⟩
  next header hheader =>
  dsimp only
  split
  · exact ⟨[], (List.append_nil _).symm, by simp⟩
  next hin =>
  split
  swap
  · exact ⟨[], (List.append_nil _).symm, by simp⟩
  next hstateful =>
  have hreach : ReachesStateful w inPort packet :=
    ⟨header, hheader, (Bool.not_eq_true _).mp hin, hstateful⟩
  rw [world_discardMalformed_log]
  cases hpayload : packet.payload with
  | other => exact ⟨[], (List.append_nil _).symm, by simp⟩
  | malformed => exact ⟨[], (List.append_nil _).symm, by simp⟩
  | data name wire => exact ⟨[], (List.append_nil _).symm, by simp⟩
  | interest name selectors nonce lifetime =>
      simp only [processPayload, processStatefulInterest]
      split
      · exact ⟨[], (List.append_nil _).symm, by simp⟩
      next result pit hinsert =>
      split
      · exact ⟨[], (List.append_nil _).symm, by simp⟩
      next haccepted =>
      rw [Bool.not_eq_true, Bool.not_eq_false'] at haccepted
      have haccepts : Accepts w inPort packet name pit :=
        ⟨hreach, selectors, nonce, lifetime, result, hpayload, hinsert, haccepted⟩
      split
      next cached hcached =>
        refine ⟨[.accepted inPort name, .sentData inPort cached], ?_, ?_⟩
        · exact List.append_assoc _ [_] [_]
        · intro o ho
          rcases List.mem_pair.mp ho with rfl | rfl
          · exact .accepted haccepts
          · exact .cached haccepts hcached
      next =>
        refine ⟨[.accepted inPort name], rfl, fun o ho => ?_⟩
        rw [List.mem_singleton.mp ho]
        exact .accepted haccepts

theorem trail_onReceiveRawPacket (cfg : EngineConfig) (inPort : Port) (packet : RawPacket)
    (w : EngineWorld) :
    Trail w (.receive inPort packet) (Handled.world (onReceiveRawPacket cfg inPort packet w)) :=
  Trail.of_eq (spawned_onReceiveRawPacket cfg inPort packet w)
    (emitted_onReceiveRawPacket cfg inPort packet w)
    (carries_onReceiveRawPacket cfg inPort packet w).buffers

/-! ## Events -/

/-- Data adds nothing but Interests that are sent again, and is sent to the ports of
the Interests it matches. -/
theorem trail_processDataAfterDelay (hrun : Loop.LoopRun cfg.loop w₀ w) (inPort : Port)
    {data : Data} (header : PacketHeader) (h : processDataAfterDelay cfg data header w = .ok w') :
    Trail w (.fire (.processDataAfterDelay inPort data header)) w' := by
  have hlog : ∃ news, w'.env.rest.log = w.env.rest.log ++ news ∧
      ∀ o ∈ news, Emits w (.fire (.processDataAfterDelay inPort data header)) o := by
    obtain ⟨-, hdiscarded⟩ | ⟨-, hdelivered⟩ := processDataAfterDelay_ok hrun h
    · exact ⟨[], hdiscarded.log.trans (List.append_nil _).symm, by simp⟩
    · refine ⟨_, hdelivered.log, fun o ho => ?_⟩
      obtain ⟨port, hport, rfl⟩ := List.mem_map.mp ho
      exact .data (Std.TreeSet.mem_toList.mp (mem_maskPorts_encodeOutPortsMask.mp hport).2.2)
  have hlearned : w'.env.rest.events = w.env.rest.events ∧
        w'.env.rest.buffers = w.env.rest.buffers ∨
      data.name.judgeNameIsTrace = true ∧ Pulls data.name.extractDataNameFromTrace
        (setPit (w.env.rest.pit.takeDataMatchPorts data.name).2 w) w' := by
    have hforward : ∀ (ports : Std.TreeSet Port) (v : EngineWorld),
        (forwardData cfg data ports header v).env.rest.events = v.env.rest.events ∧
        (forwardData cfg data ports header v).env.rest.buffers = v.env.rest.buffers ∧
        (forwardData cfg data ports header v).env.rest.pit = v.env.rest.pit := by
      intro ports v
      simp only [forwardData, foldl_sendDataToPort]
      split
      · exact ⟨rfl, rfl, rfl⟩
      · exact ⟨rfl, rfl, rfl⟩
    simp only [processDataAfterDelay] at h
    split at h
    · cases h
      exact Or.inl ⟨rfl, rfl⟩
    split at h
    swap
    · cases h
      obtain ⟨hevents, hbuffers, -⟩ := hforward (w.env.rest.pit.takeDataMatchPorts data.name).1
        (modify (fun s => { s with cs := s.cs.insert cfg.coin data })
          (setPit (w.env.rest.pit.takeDataMatchPorts data.name).2 w))
      exact Or.inl ⟨hevents, hbuffers⟩
    next htrace =>
    split at h
    · cases h
      exact Or.inl ⟨rfl, rfl⟩
    split at h
    · cases h
    next w₁ hlearn =>
      cases h
      have hpulls := pulls_handleTraceData cfg data
        (w.env.rest.pit.takeDataMatchPorts data.name).1 (savedLifetime data.name w.env.rest.pit)
        (setPit (w.env.rest.pit.takeDataMatchPorts data.name).2 w)
      rw [hlearn] at hpulls
      obtain ⟨hevents, hbuffers, hpit⟩ :=
        hforward (w.env.rest.pit.takeDataMatchPorts data.name).1 w₁
      exact Or.inr ⟨htrace, hpulls.trans (Pulls.of_eq hpit hevents hbuffers)⟩
  have hpullable : ∀ interest, Pullable data.name.extractDataNameFromTrace
      (setPit (w.env.rest.pit.takeDataMatchPorts data.name).2 w) interest →
        Pullable data.name.extractDataNameFromTrace w interest := by
    rintro interest ⟨n, entry, hentry, hn, heq⟩
    have hentry : (w.env.rest.pit.takeDataMatchPorts data.name).2.entries[n]? =
      some entry := hentry
    rw [PendingInterestTable.getElem?_takeDataMatchPorts] at hentry
    split at hentry
    · cases hentry
    · exact ⟨n, entry, hentry, hn, heq⟩
  rcases hlearned with ⟨hevents, hbuffers⟩ | ⟨htrace, hpulls⟩
  · refine Trail.of_eq (fun e he => Or.inl ?_) hlog ?_
    · rwa [hevents] at he
    · rw [hbuffers]
  · refine ⟨fun e he => ?_, hlog, hpulls.grows, fun buffer value hvalue => ?_⟩
    · rcases hpulls.events e he with hold | ⟨interest, retx, port, hpull, hname, hlife, heq⟩
      · exact Or.inl hold
      · rw [heq]
        exact Or.inr (.pull htrace (hpullable interest hpull) hname hlife)
    · rcases hpulls.kept buffer value hvalue with hold | ⟨interest, hpull, hnonce⟩
      · exact Or.inl hold
      · exact Or.inr ⟨inPort, data, header, interest, rfl, htrace, hpullable interest hpull, hnonce⟩

/-- The events that a step adds, what it sends and what it overwrites. -/
theorem EngineStep.trail (h : EngineInv cfg w₀ w) {a : EngineAction}
    (hstep : EngineStep cfg w a (.ok w')) : Trail w a w' := by
  generalize hr : (.ok w' : Handled) = r at hstep
  cases hstep with
  | receive inPort packet =>
      have htrail := trail_onReceiveRawPacket cfg inPort packet w
      rw [← hr] at htrail
      exact htrail
  | @fire e he hdue =>
      have htake : ∀ e' ∈ (ForwardingEngine.take e w).env.rest.events, e' ∈ w.env.rest.events :=
        fun e' he' => (mem_cancel.mp he').1
      cases hevent : e.event with
      | processInterestAfterDelay inPort interest header =>
          rw [ForwardingEngine.fire, hevent] at hr
          obtain ⟨counters, encoded, ports, hencoded, rfl⟩ :=
            processInterestAfterDelay_eq_ok hr.symm
          refine Trail.of_eq (fun e' he' => Or.inl (htake e' he')) ⟨_, rfl, fun o ho => ?_⟩
            List.prefix_rfl
          obtain ⟨port, hport, rfl⟩ := List.mem_map.mp ho
          exact .forward (hencoded port hport)
      | doDelayedPullSend interest port =>
          rw [ForwardingEngine.fire, hevent] at hr
          obtain ⟨encoded, hencoded, rfl⟩ := doDelayedPullSend_eq_ok hr.symm
          refine Trail.of_eq (fun e' he' => Or.inl (htake e' he')) ⟨_, rfl, fun o ho => ?_⟩
            List.prefix_rfl
          rw [List.mem_singleton.mp ho]
          exact .pull hencoded
      | processDataAfterDelay inPort data header =>
          rw [ForwardingEngine.fire, hevent] at hr
          have htrail := trail_processDataAfterDelay (h.take he hdue).loop inPort header hr.symm
          refine ⟨fun e' he' => ?_, ?_, htrail.grows, ?_⟩
          · rcases htrail.events e' he' with hold | hnew
            · exact Or.inl (htake e' hold)
            · refine Or.inr ?_
              generalize e'.event = event at hnew ⊢
              cases hnew with
              | pull htrace hpullable hname hlife => exact .pull htrace hpullable hname hlife
          · obtain ⟨news, hlog, hnews⟩ := htrail.log
            refine ⟨news, hlog, fun o ho => ?_⟩
            cases hnews o ho with
            | data hport => exact .data hport
          · exact htrail.kept
  | @temporary e he hdue =>
      cases hr
      exact Trail.of_rest_eq (Loop.kept_fire cfg.loop e w).rest
  | @central e he hdue =>
      cases hr
      exact Trail.of_rest_eq (Loop.kept_fireCentral cfg.loop e w).rest
  | idle =>
      cases hr
      exact Trail.of_rest_eq rfl

end ForwardingEngine

end Statim
