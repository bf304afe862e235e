import WebServer.Config.Settings

/-!
# The layers of the configuration

`Layered` says what the layers are for: each setting is given by the command line, or
else by the process environment, or else by the file, or else it is the default. `main`
lays the process environment over the file name by name, and only then lets `PORT` go
before `SERVER_PORT`. So a `PORT` of the file goes before a `SERVER_PORT` of the
process (`Shadowed`), and the law holds in all other cases (`layered_iff`).
-/

namespace WebServer

open Base Layers

/-! ## The layers -/

/-- The flags of the command line. -/
inductive Flag where
  | mode
  | threads
  | port
  | ip
  deriving DecidableEq

def Flag.text : Flag → Bytes
  | .mode => ascii "--mode"
  | .threads => ascii "--threads"
  | .port => ascii "--port"
  | .ip => ascii "--ip"

/-- What a flag does with its value. -/
def Flag.set (flag : Flag) (value : Bytes) (config : ServerConfig) : Except Bytes ServerConfig :=
  match flag with
  | .mode => .ok { config with mode := value }
  | .threads => (envStrToInt value).map fun threads => { config with threads }
  | .port => (envStrToInt value).map fun port => { config with port }
  | .ip => .ok { config with ip := value }

/-- Flags, each followed by its value. -/
def arguments (flags : List (Flag × Bytes)) : List Bytes :=
  flags.flatMap fun flag => [flag.1.text, flag.2]

/-- The variables of the process, those that are empty left out. -/
def processLayer (getenv : Bytes → Option Bytes) (name : Bytes) : Option Bytes :=
  (getenv name).filter fun value => decide (value ≠ [])

/-- The variables of the file: the last line that sets one counts. -/
def fileLayer (envFile : Bytes) (name : Bytes) : Option Bytes :=
  lastGiven name ((getlines 10 envFile).filterMap envEntry)

/-- A number read from a text; without a text the one that was there stays. -/
def ReadFrom (text : Option Bytes) (before n : Int) : Prop :=
  match text with
  | none => n = before
  | some text => envStrToInt text = .ok n

/-- The text of the port that the highest layer gives; in a layer `PORT` goes before
`SERVER_PORT`. -/
def layeredPort (envFile : Bytes) (getenv : Bytes → Option Bytes) (flags : List (Flag × Bytes)) :
    Option Bytes :=
  (lastGiven .port flags).or
    (byLayer (processLayer getenv) (fileLayer envFile) (ascii "PORT") (ascii "SERVER_PORT"))

/-- The text of the port that `main` reads last: `PORT` of any layer goes before
`SERVER_PORT`. -/
def mergedPort (envFile : Bytes) (getenv : Bytes → Option Bytes) (flags : List (Flag × Bytes)) :
    Option Bytes :=
  (lastGiven .port flags).or
    (byName (processLayer getenv) (fileLayer envFile) (ascii "PORT") (ascii "SERVER_PORT"))

/-- The port is read from this text, and each other setting comes from the highest layer
that gives it. -/
structure Settled (portText : Option Bytes) (envFile : Bytes) (getenv : Bytes → Option Bytes)
    (flags : List (Flag × Bytes)) (config : ServerConfig) : Prop where
  port : ReadFrom portText 8080 config.port
  threads : ReadFrom ((lastGiven .threads flags).or ((processLayer getenv (ascii "MAX_THREADS")).or
    (fileLayer envFile (ascii "MAX_THREADS")))) 4 config.threads
  ip : config.ip = ((lastGiven .ip flags).or ((processLayer getenv (ascii "SERVER_IP")).or
    (fileLayer envFile (ascii "SERVER_IP")))).getD (ascii "127.0.0.1")
  mode : config.mode = ((lastGiven .mode flags).or ((processLayer getenv (ascii "LOOP_MODE")).or
    (fileLayer envFile (ascii "LOOP_MODE")))).getD (ascii "pool")

/-- Each setting comes from the highest layer that gives it. -/
def Layered (envFile : Bytes) (getenv : Bytes → Option Bytes) (flags : List (Flag × Bytes))
    (config : ServerConfig) : Prop :=
  Settled (layeredPort envFile getenv flags) envFile getenv flags config

/-- The variables that are read as numbers. -/
def intNames : List Bytes :=
  [ascii "SERVER_PORT", ascii "PORT", ascii "MAX_THREADS", ascii "CACHE_CAPACITY",
    ascii "IDLE_TIMEOUT"]

theorem intNames_subset : ∀ name ∈ intNames, name ∈ envNames := by decide

/-- Every value that is to be a number can be read as one. -/
structure Parseable (envFile : Bytes) (getenv : Bytes → Option Bytes)
    (flags : List (Flag × Bytes)) : Prop where
  process : ∀ name ∈ intNames, ∀ text ∈ processLayer getenv name, (stoi text).isSome = true
  file : ∀ name ∈ intNames, ∀ text ∈ fileLayer envFile name, (stoi text).isSome = true
  flags : ∀ flag ∈ flags, flag.1 = .port ∨ flag.1 = .threads → (stoi flag.2).isSome = true

/-- The port is given by the process as `SERVER_PORT` only, and by the file as `PORT`
with another number, and the command line gives none. -/
def Shadowed (envFile : Bytes) (getenv : Bytes → Option Bytes) (flags : List (Flag × Bytes)) :
    Prop :=
  lastGiven .port flags = none ∧ processLayer getenv (ascii "PORT") = none ∧
    ∃ value hidden, processLayer getenv (ascii "SERVER_PORT") = some value ∧
      fileLayer envFile (ascii "PORT") = some hidden ∧ envStrToInt value ≠ envStrToInt hidden

variable {envFile : Bytes} {getenv : Bytes → Option Bytes} {flags : List (Flag × Bytes)}

/-! ## The merged variables -/

theorem lookup_parseEnvFile (envFile name : Bytes) :
    (parseEnvFile envFile).lookup name = fileLayer envFile name := by
  have hoverlay : parseEnvFile envFile =
      overlay ((getlines 10 envFile).filterMap envEntry) ∅ := by
    rw [overlay, List.foldl_filterMap, parseEnvFile]
    congr 1
    funext envVariables line
    cases envEntry line <;> rfl
  rw [hoverlay, lookup_overlay, AList.lookup_empty, Option.or_none, fileLayer]

/-- The variables of the process are laid over those of the file. -/
theorem lookup_mergeEnv (getenv : Bytes → Option Bytes) (env : EnvVariables) {name : Bytes}
    (hname : name ∈ envNames) :
    (mergeEnv getenv env).lookup name = (processLayer getenv name).or (env.lookup name) := by
  have hoverlay : mergeEnv getenv env = overlay (givenTo (processLayer getenv) envNames) env := by
    rw [overlay, givenTo, List.foldl_filterMap, mergeEnv]
    congr 1
    funext env name
    cases hvalue : getenv name with
    | none => simp only [processLayer, hvalue, Option.filter_none, Option.map_none]
    | some value =>
      by_cases hempty : value = []
      · simp [processLayer, hvalue, hempty, Option.filter_some]
      · simp [processLayer, hvalue, hempty, Option.filter_some]
  rw [hoverlay, lookup_overlay, lastGiven_givenTo, if_pos hname]

/-- The merged variables that `main` goes by. -/
theorem lookup_merged (envFile : Bytes) (getenv : Bytes → Option Bytes) {name : Bytes}
    (hname : name ∈ envNames) :
    (mergeEnv getenv (parseEnvFile envFile)).lookup name =
      (processLayer getenv name).or (fileLayer envFile name) := by
  rw [lookup_mergeEnv getenv _ hname, lookup_parseEnvFile]

/-! ## What the settings are read from -/

theorem ReadFrom.none (n : Int) : ReadFrom .none n n := rfl

/-- A number is read from the upper text, or else from the lower one. -/
theorem ReadFrom.or {upper lower : Option Bytes} {before middle n : Int}
    (hlower : ReadFrom lower before middle) (hupper : ReadFrom upper middle n) :
    ReadFrom (upper.or lower) before n := by
  cases upper with
  | some text => exact hupper
  | none =>
    have heq : n = middle := hupper
    rw [Option.none_or, heq]
    exact hlower

theorem envStrToInt_eq_ok {str : Bytes} {n : Int} : envStrToInt str = .ok n ↔ stoi str = some n := by
  unfold envStrToInt
  cases stoi str <;> simp

theorem bind_eq_ok {ε α β : Type} {x : Except ε α} {f : α → Except ε β} {b : β}
    (h : x.bind f = .ok b) : ∃ a, x = .ok a ∧ f a = .ok b := by
  cases x with
  | error e => cases h
  | ok a => exact ⟨a, rfl, h⟩

theorem map_eq_ok {ε α β : Type} {x : Except ε α} {f : α → β} {b : β} (h : x.map f = .ok b) :
    ∃ a, x = .ok a ∧ f a = b := by
  cases x with
  | error e => cases h
  | ok a => exact ⟨a, rfl, Except.ok.inj h⟩

namespace ServerConfig

/-- A field takes the value of its variable, or stays. -/
theorem setText_eq (get : ServerConfig → Bytes) {set : Bytes → ServerConfig → ServerConfig}
    (same : ∀ config, set (get config) config = config) (env : EnvVariables) (name : Bytes)
    (config : ServerConfig) :
    setText env name set config = set ((env.lookup name).getD (get config)) config := by
  unfold setText
  cases env.lookup name with
  | none => exact (same config).symm
  | some value => rfl

/-- A field takes the number that its variable is read as, or stays. -/
theorem setInt_ok (get : ServerConfig → Int) {env : EnvVariables} {name : Bytes}
    {set : Int → ServerConfig → ServerConfig} (same : ∀ config, set (get config) config = config)
    {config config' : ServerConfig} (h : setInt env name set config = .ok config') :
    ∃ n, ReadFrom (env.lookup name) (get config) n ∧ config' = set n config := by
  unfold setInt at h
  cases hl : env.lookup name with
  | none =>
    rw [hl] at h
    exact ⟨get config, rfl, (Except.ok.inj h).symm.trans (same config).symm⟩
  | some text =>
    rw [hl] at h
    obtain ⟨n, hn, hset⟩ := map_eq_ok h
    exact ⟨n, hn, hset.symm⟩

/-- What `fromEnv` makes of the variables. -/
structure FromEnv (env : EnvVariables) (before config : ServerConfig) : Prop where
  port : ReadFrom ((env.lookup (ascii "PORT")).or (env.lookup (ascii "SERVER_PORT"))) before.port
    config.port
  threads : ReadFrom (env.lookup (ascii "MAX_THREADS")) before.threads config.threads
  ip : config.ip = (env.lookup (ascii "SERVER_IP")).getD before.ip
  mode : config.mode = (env.lookup (ascii "LOOP_MODE")).getD before.mode

theorem fromEnv_ok {env : EnvVariables} {before config : ServerConfig}
    (h : fromEnv env before = .ok config) : FromEnv env before config := by
  have hip : setText env (ascii "SERVER_IP") (fun ip config => { config with ip }) before =
      { before with ip := (env.lookup (ascii "SERVER_IP")).getD before.ip } :=
    setText_eq ServerConfig.ip (fun _ => rfl) env _ before
  rw [fromEnv, hip] at h
  obtain ⟨c₁, h₁, h⟩ := bind_eq_ok h
  obtain ⟨c₂, h₂, h⟩ := bind_eq_ok h
  obtain ⟨c₃, h₃, h⟩ := bind_eq_ok h
  obtain ⟨c₄, h₄, h⟩ := bind_eq_ok h
  obtain ⟨c₅, h₅, h⟩ := bind_eq_ok h
  obtain ⟨serverPort, hserverPort, rfl⟩ := setInt_ok ServerConfig.port (fun _ => rfl) h₁
  obtain ⟨port, hport, rfl⟩ := setInt_ok ServerConfig.port (fun _ => rfl) h₂
  obtain ⟨threads, hthreads, rfl⟩ := setInt_ok ServerConfig.threads (fun _ => rfl) h₃
  obtain ⟨capacity, -, rfl⟩ := setInt_ok ServerConfig.cacheCapacity (fun _ => rfl) h₄
  obtain ⟨timeout, -, rfl⟩ := setInt_ok ServerConfig.idleTimeoutSeconds (fun _ => rfl) h₅
  obtain rfl := Except.ok.inj h
  rw [setText_eq ServerConfig.mode (fun _ => rfl)]
  exact ⟨hserverPort.or hport, hthreads, rfl, rfl⟩

/-! ## The command line -/

theorem applyFlag_text (flag : Flag) (value : Bytes) (config : ServerConfig) :
    applyFlag flag.text value config = flag.set value config := by
  cases flag <;> rfl

/-- What the flags make of a configuration. -/
structure FromFlags (flags : List (Flag × Bytes)) (before config : ServerConfig) : Prop where
  port : ReadFrom (lastGiven .port flags) before.port config.port
  threads : ReadFrom (lastGiven .threads flags) before.threads config.threads
  ip : config.ip = (lastGiven .ip flags).getD before.ip
  mode : config.mode = (lastGiven .mode flags).getD before.mode

theorem fromFlag {flag : Flag} {value : Bytes} {before config : ServerConfig}
    (h : flag.set value before = .ok config) : FromFlags [(flag, value)] before config := by
  cases flag with
  | mode | ip =>
    obtain rfl := Except.ok.inj h
    exact ⟨rfl, rfl, rfl, rfl⟩
  | threads =>
    obtain ⟨n, hn, rfl⟩ := map_eq_ok h
    exact ⟨rfl, hn, rfl, rfl⟩
  | port =>
    obtain ⟨n, hn, rfl⟩ := map_eq_ok h
    exact ⟨hn, rfl, rfl, rfl⟩

/-- The flags behind the first one have the last word. -/
theorem FromFlags.cons {flag : Flag × Bytes} {flags : List (Flag × Bytes)}
    {before middle config : ServerConfig} (hfirst : FromFlags [flag] before middle)
    (hrest : FromFlags flags middle config) : FromFlags (flag :: flags) before config where
  port := hfirst.port.or hrest.port
  threads := hfirst.threads.or hrest.threads
  ip := by
    rw [lastGiven_cons .ip flag flags, Option.getD_or, ← hfirst.ip]
    exact hrest.ip
  mode := by
    rw [lastGiven_cons .mode flag flags, Option.getD_or, ← hfirst.mode]
    exact hrest.mode

theorem applyFlags_ok {flags : List (Flag × Bytes)} {before config : ServerConfig}
    (h : applyFlags before (arguments flags) = .ok config) : FromFlags flags before config := by
  induction flags generalizing before with
  | nil =>
    obtain rfl := Except.ok.inj h
    exact ⟨rfl, rfl, rfl, rfl⟩
  | cons flag flags ih =>
    obtain ⟨middle, hfirst, hrest⟩ := bind_eq_ok h
    rw [applyFlag_text] at hfirst
    exact (fromFlag hfirst).cons (ih hrest)

/-! ## Values that can be read -/

theorem setInt_reads {env : EnvVariables} {name : Bytes}
    (readable : ∀ text ∈ env.lookup name, (stoi text).isSome = true)
    (set : Int → ServerConfig → ServerConfig) (config : ServerConfig) :
    ∃ config', setInt env name set config = .ok config' := by
  unfold setInt
  cases hl : env.lookup name with
  | none => exact ⟨config, rfl⟩
  | some text =>
    obtain ⟨n, hn⟩ := Option.isSome_iff_exists.mp (readable text hl)
    rw [← envStrToInt_eq_ok] at hn
    refine ⟨set n config, ?_⟩
    show (envStrToInt text).map _ = _
    rw [hn]
    rfl

theorem fromEnv_reads {env : EnvVariables}
    (readable : ∀ name ∈ intNames, ∀ text ∈ env.lookup name, (stoi text).isSome = true)
    (config : ServerConfig) : ∃ config', fromEnv env config = .ok config' := by
  have setInt_of : ∀ {name : Bytes}, name ∈ intNames → ∀ set config, ∃ config',
      setInt env name set config = .ok config' := fun hin => setInt_reads (readable _ hin)
  obtain ⟨c₁, h₁⟩ := @setInt_of (ascii "SERVER_PORT") (by decide)
    (fun port config => { config with port })
    (setText env (ascii "SERVER_IP") (fun ip config => { config with ip }) config)
  obtain ⟨c₂, h₂⟩ := @setInt_of (ascii "PORT") (by decide)
    (fun port config => { config with port }) c₁
  obtain ⟨c₃, h₃⟩ := @setInt_of (ascii "MAX_THREADS") (by decide)
    (fun threads config => { config with threads }) c₂
  obtain ⟨c₄, h₄⟩ := @setInt_of (ascii "CACHE_CAPACITY") (by decide)
    (fun cacheCapacity config => { config with cacheCapacity }) c₃
  obtain ⟨c₅, h₅⟩ := @setInt_of (ascii "IDLE_TIMEOUT") (by decide)
    (fun idleTimeoutSeconds config => { config with idleTimeoutSeconds }) c₄
  refine ⟨setText env (ascii "LOOP_MODE") (fun mode config => { config with mode }) c₅, ?_⟩
  simp only [fromEnv, bind, Except.bind, h₁, h₂, h₃, h₄, h₅]
  rfl

theorem flag_reads {flag : Flag} {value : Bytes}
    (readable : flag = .port ∨ flag = .threads → (stoi value).isSome = true)
    (config : ServerConfig) : ∃ config', flag.set value config = .ok config' := by
  have number : flag = .port ∨ flag = .threads → ∃ n, envStrToInt value = .ok n := by
    intro hflag
    obtain ⟨n, hn⟩ := Option.isSome_iff_exists.mp (readable hflag)
    exact ⟨n, envStrToInt_eq_ok.mpr hn⟩
  cases flag with
  | mode => exact ⟨{ config with mode := value }, rfl⟩
  | ip => exact ⟨{ config with ip := value }, rfl⟩
  | threads =>
    obtain ⟨threads, hn⟩ := number (.inr rfl)
    exact ⟨{ config with threads }, by rw [Flag.set, hn]; rfl⟩
  | port =>
    obtain ⟨port, hn⟩ := number (.inl rfl)
    exact ⟨{ config with port }, by rw [Flag.set, hn]; rfl⟩

theorem applyFlags_reads {flags : List (Flag × Bytes)}
    (readable : ∀ flag ∈ flags, flag.1 = .port ∨ flag.1 = .threads → (stoi flag.2).isSome = true)
    (config : ServerConfig) : ∃ config', applyFlags config (arguments flags) = .ok config' := by
  induction flags generalizing config with
  | nil => exact ⟨config, rfl⟩
  | cons flag flags ih =>
    obtain ⟨middle, hfirst⟩ := flag_reads (readable flag List.mem_cons_self) config
    obtain ⟨config', hrest⟩ := ih (fun f hf => readable f (List.mem_cons_of_mem _ hf)) middle
    refine ⟨config', ?_⟩
    show (applyFlag flag.1.text flag.2 config).bind _ = _
    rw [applyFlag_text, hfirst]
    exact hrest

/-- With values that can all be read, `main` comes to a configuration. -/
theorem read_of_parseable (parseable : Parseable envFile getenv flags) :
    ∃ config, read envFile getenv (arguments flags) = .ok config := by
  have readable : ∀ name ∈ intNames,
      ∀ text ∈ (mergeEnv getenv (parseEnvFile envFile)).lookup name, (stoi text).isSome = true := by
    intro name hname text htext
    rw [lookup_merged envFile getenv (intNames_subset name hname)] at htext
    rcases Option.or_eq_some_iff.mp htext with htext | ⟨-, htext⟩
    · exact parseable.process name hname text htext
    · exact parseable.file name hname text htext
  obtain ⟨middle, hmiddle⟩ := fromEnv_reads readable {}
  obtain ⟨config, hconfig⟩ := applyFlags_reads parseable.flags middle
  refine ⟨config, ?_⟩
  show (fromEnv _ _).bind _ = _
  rw [hmiddle]
  exact hconfig

/-! ## The law -/

/-- The port that the merged variables give. -/
theorem port_of_merged {config : ServerConfig}
    (h : fromEnv (mergeEnv getenv (parseEnvFile envFile)) {} = .ok config) :
    ReadFrom (byName (processLayer getenv) (fileLayer envFile) (ascii "PORT")
      (ascii "SERVER_PORT")) 8080 config.port := by
  have hport := (fromEnv_ok h).port
  rw [lookup_merged envFile getenv (by decide), lookup_merged envFile getenv (by decide)] at hport
  exact hport

/-- What `main` makes of the layers. -/
theorem settled_of_read {config : ServerConfig}
    (h : read envFile getenv (arguments flags) = .ok config) :
    Settled (mergedPort envFile getenv flags) envFile getenv flags config := by
  obtain ⟨middle, hmiddle, hflags⟩ := bind_eq_ok h
  have env := fromEnv_ok hmiddle
  have cli := applyFlags_ok hflags
  have hthreads := env.threads
  have hip := env.ip
  have hmode := env.mode
  rw [lookup_merged envFile getenv (by decide)] at hthreads hip hmode
  refine ⟨(port_of_merged hmiddle).or cli.port, hthreads.or cli.threads, ?_, ?_⟩
  · rw [Option.getD_or, ← hip]
    exact cli.ip
  · rw [Option.getD_or, ← hmode]
    exact cli.mode

end ServerConfig

/-- Where the port is shadowed `main` reads another text than the layers give. -/
theorem ports_of_shadowed (h : Shadowed envFile getenv flags) :
    ∃ value hidden, layeredPort envFile getenv flags = some value ∧
      mergedPort envFile getenv flags = some hidden ∧ envStrToInt value ≠ envStrToInt hidden := by
  obtain ⟨hcli, hpreferred, value, hidden, hother, hbelow, hne⟩ := h
  obtain ⟨hname, hlayer⟩ := byName_of_shadowed hpreferred hother hbelow
  refine ⟨value, hidden, ?_, ?_, hne⟩
  · rw [layeredPort, hcli, Option.none_or, hlayer]
  · rw [mergedPort, hcli, Option.none_or, hname]

/-- In all other cases it reads the same number. -/
theorem ports_agree (h : ¬ Shadowed envFile getenv flags) (before n : Int) :
    ReadFrom (mergedPort envFile getenv flags) before n ↔
      ReadFrom (layeredPort envFile getenv flags) before n := by
  by_cases hnames : processLayer getenv (ascii "PORT") ≠ none ∨
      processLayer getenv (ascii "SERVER_PORT") = none ∨ fileLayer envFile (ascii "PORT") = none
  · rw [mergedPort, byName_eq_byLayer hnames, layeredPort]
  · rw [not_or, not_or, not_not] at hnames
    obtain ⟨hpreferred, hother, hbelow⟩ := hnames
    obtain ⟨value, hvalue⟩ := Option.ne_none_iff_exists'.mp hother
    obtain ⟨hidden, hhidden⟩ := Option.ne_none_iff_exists'.mp hbelow
    obtain ⟨hname, hlayer⟩ := byName_of_shadowed hpreferred hvalue hhidden
    rw [mergedPort, layeredPort, hname, hlayer]
    cases hcli : lastGiven Flag.port flags with
    | some text => exact Iff.rfl
    | none =>
      have hsame : envStrToInt value = envStrToInt hidden := by
        by_contra hne
        exact h ⟨hcli, hpreferred, value, hidden, hvalue, hhidden, hne⟩
      show envStrToInt hidden = .ok n ↔ envStrToInt value = .ok n
      rw [hsame]

/-- With values that can all be read `main` comes to a configuration, and the layers are
respected exactly if the port is not shadowed. -/
theorem layered_iff (parseable : Parseable envFile getenv flags) :
    ∃ config, ServerConfig.read envFile getenv (arguments flags) = .ok config ∧
      (Layered envFile getenv flags config ↔ ¬ Shadowed envFile getenv flags) := by
  obtain ⟨config, hread⟩ := ServerConfig.read_of_parseable parseable
  have settled := ServerConfig.settled_of_read hread
  refine ⟨config, hread, fun layered hshadowed => ?_, fun hclear => ?_⟩
  · obtain ⟨value, hidden, hlayer, hmerged, hne⟩ := ports_of_shadowed hshadowed
    have hvalue := layered.port
    have hhidden := settled.port
    rw [hlayer] at hvalue
    rw [hmerged] at hhidden
    exact hne (hvalue.trans hhidden.symm)
  · exact ⟨(ports_agree hclear 8080 config.port).mp settled.port, settled.threads, settled.ip,
      settled.mode⟩

/-- A process environment with one variable. -/
def oneVariable (name value : Bytes) : Bytes → Option Bytes :=
  fun asked => if asked = name then some value else none

/-- The port of the platform goes before the one of the file, and a flag before both. -/
theorem layered_iff_platform :
    ∃ config, ServerConfig.read (ascii "SERVER_PORT=8080\nMAX_THREADS=8\n")
        (oneVariable (ascii "PORT") (ascii "10000")) (arguments [(.threads, ascii "2")]) =
          .ok config ∧
      Layered (ascii "SERVER_PORT=8080\nMAX_THREADS=8\n")
        (oneVariable (ascii "PORT") (ascii "10000")) [(.threads, ascii "2")] config := by
  have parseable : Parseable (ascii "SERVER_PORT=8080\nMAX_THREADS=8\n")
      (oneVariable (ascii "PORT") (ascii "10000")) [(.threads, ascii "2")] :=
    ⟨by decide +kernel, by decide +kernel, by decide +kernel⟩
  obtain ⟨config, hread, hiff⟩ := layered_iff parseable
  refine ⟨config, hread, hiff.mpr fun hshadowed => ?_⟩
  obtain ⟨-, hpreferred, -⟩ := hshadowed
  exact absurd hpreferred (by decide +kernel)

/-- A `PORT` in the file goes before the `SERVER_PORT` of the process. -/
theorem not_layered : ¬ ∀ envFile getenv flags, Parseable envFile getenv flags →
    ∀ config, ServerConfig.read envFile getenv (arguments flags) = .ok config →
      Layered envFile getenv flags config := by
  intro all
  have parseable : Parseable (ascii "PORT=9090\n") (oneVariable (ascii "SERVER_PORT") (ascii "8081"))
      [] := ⟨by decide +kernel, by decide +kernel, List.forall_mem_nil _⟩
  obtain ⟨config, hread⟩ := ServerConfig.read_of_parseable parseable
  have hlayered := (all _ _ _ parseable config hread).port
  have hmerged := (ServerConfig.settled_of_read hread).port
  have hvalue : layeredPort (ascii "PORT=9090\n")
      (oneVariable (ascii "SERVER_PORT") (ascii "8081")) [] = some (ascii "8081") := by
    decide +kernel
  have hhidden : mergedPort (ascii "PORT=9090\n")
      (oneVariable (ascii "SERVER_PORT") (ascii "8081")) [] = some (ascii "9090") := by
    decide +kernel
  rw [hvalue] at hlayered
  rw [hhidden] at hmerged
  have h8081 := envStrToInt_eq_ok.mp hlayered
  have h9090 := envStrToInt_eq_ok.mp hmerged
  rw [← h9090] at h8081
  exact absurd h8081 (by decide +kernel)

end WebServer
