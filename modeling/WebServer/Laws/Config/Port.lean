import WebServer.Config.Listener
import WebServer.Laws.Config.Layers
import WebServer.Laws.Http.Client

/-!
# The port that the server listens on

Between the text of the port and `bind` there are two conversions. `std::stoi` takes the
longest prefix that is a number and passes over what is behind it, and the cast to
sixteen bits drops what does not fit. So the server listens where it was told, or not at
all, exactly for the texts that `stoi` rejects and for the numbers up to 65535 as
`decimal` writes them (`listensAsTold_iff`).
-/

namespace WebServer

open Base Layers

/-! ## The text of the port -/

/-- The flags of a command line, each with what is behind it. -/
def pairs : List Bytes → List (Bytes × Bytes)
  | flag :: value :: args => (flag, value) :: pairs args
  | [_] => []
  | [] => []

/-- The text that the port is taken from: that of the last `--port`, or else that of a
variable. -/
def toldPort (envFile : Bytes) (getenv : Bytes → Option Bytes) (args : List Bytes) :
    Option Bytes :=
  (lastGiven (ascii "--port") (pairs args)).or
    (byName (processLayer getenv) (fileLayer envFile) (ascii "PORT") (ascii "SERVER_PORT"))

/-- Whenever the server is told this port and starts, it listens there only. -/
def ListensAsTold (s : Bytes) : Prop :=
  ∀ calls envFile getenv args listeners, toldPort envFile getenv args = some s →
    startup calls envFile getenv args = .ok listeners →
      ∀ listener ∈ listeners, decimal listener.port.toNat = s

namespace ServerConfig

/-- Any flag but `--port` leaves the port alone. -/
theorem applyFlag_port {flag value : Bytes} {before config : ServerConfig}
    (h : applyFlag flag value before = .ok config) :
    ReadFrom (lastGiven (ascii "--port") [(flag, value)]) before.port config.port := by
  have other : flag ≠ ascii "--port" → config.port = before.port →
      ReadFrom (lastGiven (ascii "--port") [(flag, value)]) before.port config.port := by
    intro hflag heq
    rw [lastGiven, if_neg hflag]
    exact heq
  unfold applyFlag at h
  split at h
  next hmode =>
    obtain rfl := Except.ok.inj h
    exact other (by rw [hmode]; decide) rfl
  next =>
    split at h
    next hthreads =>
      obtain ⟨n, -, rfl⟩ := map_eq_ok h
      exact other (by rw [hthreads]; decide) rfl
    next =>
      split at h
      next hport =>
        obtain ⟨n, hn, rfl⟩ := map_eq_ok h
        rw [lastGiven, if_pos hport]
        exact hn
      next hport =>
        split at h
        next =>
          obtain rfl := Except.ok.inj h
          exact other hport rfl
        next =>
          obtain rfl := Except.ok.inj h
          exact other hport rfl

theorem applyFlags_port {args : List Bytes} {before config : ServerConfig}
    (h : applyFlags before args = .ok config) :
    ReadFrom (lastGiven (ascii "--port") (pairs args)) before.port config.port := by
  induction args using pairs.induct generalizing before with
  | case1 flag value args ih =>
    obtain ⟨middle, hfirst, hrest⟩ := bind_eq_ok h
    rw [pairs, lastGiven_cons]
    exact (applyFlag_port hfirst).or (ih hrest)
  | case2 flag => exact congrArg ServerConfig.port (Except.ok.inj h).symm
  | case3 => exact congrArg ServerConfig.port (Except.ok.inj h).symm

/-- The port is the number that `stoi` finds in the text. -/
theorem port_of_load {envFile : Bytes} {getenv : Bytes → Option Bytes} {args : List Bytes}
    {config : ServerConfig} (h : load envFile getenv args = .ok config) :
    ReadFrom (toldPort envFile getenv args) 8080 config.port := by
  obtain ⟨chosen, hread, rfl⟩ := map_eq_ok h
  obtain ⟨middle, hmiddle, hflags⟩ := bind_eq_ok hread
  have hsame : chosen.clampThreads.chooseMode.port = chosen.port := by
    unfold chooseMode clampThreads
    split <;> split <;> rfl
  rw [hsame]
  exact (port_of_merged hmiddle).or (applyFlags_port hflags)

end ServerConfig

/-! ## What is bound -/

theorem failing_eq_ok {α : Type} {what : Bytes} {result : Except Bytes α} {a : α}
    (h : failing what result = .ok a) : result = .ok a := by
  cases result with
  | error e => cases h
  | ok b => exact h

theorem mem_of_mapM_eq_ok {ε α β : Type} {f : α → Except ε β} {as : List α} {bs : List β}
    (h : as.mapM f = .ok bs) : ∀ b ∈ bs, ∃ a ∈ as, f a = .ok b := by
  induction as generalizing bs with
  | nil =>
    obtain rfl := Except.ok.inj h
    exact List.forall_mem_nil _
  | cons a as ih =>
    rw [List.mapM_cons] at h
    obtain ⟨b, hb, h⟩ := bind_eq_ok h
    obtain ⟨rest, hrest, h⟩ := bind_eq_ok h
    obtain rfl := Except.ok.inj h
    intro c hc
    rcases List.mem_cons.mp hc with rfl | hc
    · exact ⟨a, List.mem_cons_self, hb⟩
    · obtain ⟨a', ha', hf⟩ := ih hrest c hc
      exact ⟨a', List.mem_cons_of_mem _ ha', hf⟩

/-- A listener is bound to the sixteen low bits of the port. -/
theorem createListener_port {calls : SocketCalls} {ip : Bytes} {port : Int} {reusePort : Bool}
    {listener : Listener} (h : createListener calls ip port reusePort = .ok listener) :
    listener.port = UInt16.ofInt port := by
  obtain ⟨fd, -, h⟩ := bind_eq_ok h
  obtain ⟨_, -, h⟩ := bind_eq_ok h
  split at h
  next => cases h
  next address =>
    obtain ⟨_, -, h⟩ := bind_eq_ok h
    obtain ⟨_, -, h⟩ := bind_eq_ok h
    obtain ⟨_, -, h⟩ := bind_eq_ok h
    obtain rfl := Except.ok.inj h
    rfl

theorem ServerConfig.listeners_port {calls : Nat → SocketCalls} {config : ServerConfig}
    {made : List Listener} (h : config.listeners calls = .ok made) :
    ∀ listener ∈ made, listener.port = UInt16.ofInt config.port := by
  intro listener hmem
  unfold listeners at h
  split at h
  next =>
    obtain ⟨i, -, hmade⟩ := mem_of_mapM_eq_ok h listener hmem
    obtain ⟨created, hcreated, hmade⟩ := bind_eq_ok (failing_eq_ok hmade)
    obtain ⟨_, -, hmade⟩ := bind_eq_ok hmade
    obtain rfl := Except.ok.inj hmade
    exact createListener_port hcreated
  next =>
    obtain ⟨one, hone, h⟩ := bind_eq_ok h
    obtain rfl := Except.ok.inj h
    obtain rfl := List.mem_singleton.mp hmem
    obtain ⟨created, hcreated, hone⟩ := bind_eq_ok hone
    obtain ⟨_, -, hone⟩ := bind_eq_ok hone
    obtain rfl := Except.ok.inj hone
    exact createListener_port (failing_eq_ok hcreated)

/-- What is bound when the server starts: the sixteen low bits of the number that `stoi`
finds in the text. -/
theorem port_of_startup {calls : Nat → SocketCalls} {envFile : Bytes}
    {getenv : Bytes → Option Bytes} {args : List Bytes} {made : List Listener} {s : Bytes}
    (htold : toldPort envFile getenv args = some s)
    (h : startup calls envFile getenv args = .ok made) :
    ∃ n, stoi s = some n ∧ ∀ listener ∈ made, listener.port = UInt16.ofInt n := by
  obtain ⟨config, hload, hmade⟩ := bind_eq_ok h
  have hport := ServerConfig.port_of_load hload
  rw [htold] at hport
  exact ⟨config.port, envStrToInt_eq_ok.mp hport, ServerConfig.listeners_port hmade⟩

/-! ## The law -/

/-- Calls that all succeed. -/
def allSucceed : SocketCalls where
  socket := .ok 3
  setReusePort := .ok ()
  inetPton _ := some 2130706433
  bind _ _ := .ok ()
  listen := .ok ()
  setNonBlocking := .ok ()
  makeEvents := .ok ()

/-- With a text that `stoi` takes the server can start. -/
theorem startup_of_stoi {s : Bytes} {n : Int} (h : stoi s = some n) :
    startup (fun _ => allSucceed) [] (fun _ => none) [ascii "--port", s] =
      .ok [{ fd := 3, address := 2130706433, port := UInt16.ofInt n }] := by
  have hread : ServerConfig.read [] (fun _ => none) [ascii "--port", s] = .ok { port := n } := by
    show (ServerConfig.applyFlag Flag.port.text s {}).bind _ = _
    rw [ServerConfig.applyFlag_text, Flag.set, envStrToInt_eq_ok.mpr h]
    rfl
  rw [startup, ServerConfig.load, hread]
  rfl

theorem bound_of_listensAsTold {s : Bytes} {n : Int} (listens : ListensAsTold s)
    (h : stoi s = some n) : decimal (UInt16.ofInt n).toNat = s := by
  have htold : toldPort [] (fun _ => none) [ascii "--port", s] = some s := rfl
  exact listens _ _ _ _ _ htold (startup_of_stoi h) _ (List.mem_singleton_self _)

theorem toNat_ofInt_of_le {n : Nat} (h : n ≤ 65535) : (UInt16.ofInt n).toNat = n := by
  simp only [UInt16.ofInt, UInt16.toNat_ofNat']
  omega

/-- A port is read back from its notation. -/
theorem stoi_decimal {n : Nat} (h : n ≤ 65535) : stoi (decimal n) = some (n : Int) := by
  have hdigits := decimal_isdigit n
  have hread := strtoll_digits (decimal_ne_nil n) hdigits
    (by rw [decimalValue_decimal, longMax]; omega)
  rw [stoi, cString_digits hdigits, hread, decimalValue_decimal]
  exact if_pos ⟨by rw [intMin]; omega, by rw [intMax]; omega⟩

/-- The server listens on the port that it was told, or not at all, exactly if `stoi`
rejects the text or it is the notation of a number of sixteen bits. -/
theorem listensAsTold_iff (s : Bytes) :
    ListensAsTold s ↔ stoi s = none ∨ ∃ n ≤ 65535, s = decimal n := by
  constructor
  · intro listens
    cases hstoi : stoi s with
    | none => exact .inl rfl
    | some n =>
      refine .inr ⟨(UInt16.ofInt n).toNat, ?_, (bound_of_listensAsTold listens hstoi).symm⟩
      exact Nat.le_of_lt_succ (UInt16.ofInt n).toNat_lt
  · rintro hs calls envFile getenv args made htold hstart listener hmem
    obtain ⟨n, hn, hbound⟩ := port_of_startup htold hstart
    rcases hs with hnone | ⟨m, hm, rfl⟩
    · rw [hnone] at hn
      cases hn
    · rw [stoi_decimal hm] at hn
      obtain rfl := Option.some.inj hn
      rw [hbound listener hmem, toNat_ofInt_of_le hm]

/-- Told 65616, it listens on 80. -/
theorem not_listensAsTold : ¬ ∀ s, ListensAsTold s := by
  intro all
  have hbound := bound_of_listensAsTold (n := 65616) (all (ascii "65616")) (by decide +kernel)
  exact absurd hbound (by decide +kernel)

end WebServer
