import WebServer.Api.Text
import WebServer.Base.Layers

/-!
# The configuration

How `main` comes by the settings of the server: `parseEnvFile` and `envStrToInt` of
`src/utils.cpp`, the environment of the process, which `main` lays over the file, and
the flags of the command line. An `int` is an integer within its bounds; what throws is
an error with its text.
-/

namespace WebServer

open Base

def intMax : Int := 2147483647
def intMin : Int := -2147483648

/-- `std::stoi`, which reads the longest prefix that is a number; `none` where it
throws. -/
def stoi (str : Bytes) : Option Int :=
  match strtoll (cString str) with
  | none => none
  | some (n, _) => if intMin ≤ n ∧ n ≤ intMax then some n else none

def envStrToInt (str : Bytes) : Except Bytes Int :=
  match stoi str with
  | some n => .ok n
  | none => .error (ascii "Cannot convert \"" ++ str ++ ascii "\" to an integer")

abbrev EnvVariables := AList fun _ : Bytes => Bytes

/-- What a line of the file sets. The second `getline` fails where nothing is left
behind the first '=', and so does a line without one. -/
def envEntry (line : Bytes) : Option (Bytes × Bytes) :=
  let line := if line.getLast? = some 13 then line.dropLast else line
  if line = [] ∨ line.head? = some 35 then none
  else
    match find (ascii "=") line with
    | none => none
    | some equals =>
      let value := line.drop (equals + 1)
      if value = [] then none else some (line.take equals, value)

/-- `parseEnvFile`, from the content of the file; one that cannot be opened is empty. -/
def parseEnvFile (content : Bytes) : EnvVariables :=
  (getlines 10 content).foldl (fun envVariables line =>
    match envEntry line with
    | none => envVariables
    | some (key, value) => envVariables.insert key value) ∅

/-- `ServerConfig`. -/
structure ServerConfig where
  ip : Bytes := ascii "127.0.0.1"
  port : Int := 8080
  threads : Int := 4
  cacheCapacity : Int := 64
  idleTimeoutSeconds : Int := 15
  mode : Bytes := ascii "pool"

/-- The variables that `main` asks the process environment for. -/
def envNames : List Bytes :=
  [ascii "SERVER_IP", ascii "SERVER_PORT", ascii "PORT", ascii "MAX_THREADS",
    ascii "CACHE_CAPACITY", ascii "IDLE_TIMEOUT", ascii "LOOP_MODE"]

/-- The loop that lets the variables of the process, unless they are empty, replace
those of the file. -/
def mergeEnv (getenv : Bytes → Option Bytes) (env : EnvVariables) : EnvVariables :=
  envNames.foldl (fun env name =>
    match getenv name with
    | none => env
    | some value => if value = [] then env else env.insert name value) env

namespace ServerConfig

/-- A variable that is taken as it is, if there is one. -/
def setText (env : EnvVariables) (name : Bytes) (set : Bytes → ServerConfig → ServerConfig)
    (config : ServerConfig) : ServerConfig :=
  match env.lookup name with
  | none => config
  | some value => set value config

/-- A variable that is read as a number, if there is one. -/
def setInt (env : EnvVariables) (name : Bytes) (set : Int → ServerConfig → ServerConfig)
    (config : ServerConfig) : Except Bytes ServerConfig :=
  match env.lookup name with
  | none => .ok config
  | some value => (envStrToInt value).map fun n => set n config

/-- The settings that `main` takes from the merged variables, in its order. -/
def fromEnv (env : EnvVariables) (config : ServerConfig) : Except Bytes ServerConfig := do
  let config := setText env (ascii "SERVER_IP") (fun ip config => { config with ip }) config
  let config ← setInt env (ascii "SERVER_PORT") (fun port config => { config with port }) config
  let config ← setInt env (ascii "PORT") (fun port config => { config with port }) config
  let config ← setInt env (ascii "MAX_THREADS") (fun threads config => { config with threads })
    config
  let config ← setInt env (ascii "CACHE_CAPACITY")
    (fun cacheCapacity config => { config with cacheCapacity }) config
  let config ← setInt env (ascii "IDLE_TIMEOUT")
    (fun idleTimeoutSeconds config => { config with idleTimeoutSeconds }) config
  return setText env (ascii "LOOP_MODE") (fun mode config => { config with mode }) config

def applyFlag (flag value : Bytes) (config : ServerConfig) : Except Bytes ServerConfig :=
  if flag = ascii "--mode" then .ok { config with mode := value }
  else if flag = ascii "--threads" then
    (envStrToInt value).map fun threads => { config with threads }
  else if flag = ascii "--port" then (envStrToInt value).map fun port => { config with port }
  else if flag = ascii "--ip" then .ok { config with ip := value }
  else .ok config

/-- The loop over `argv`, which goes on by two: `args` is what is behind the program's
name, and a last argument without a value is not looked at. -/
def applyFlags (config : ServerConfig) : List Bytes → Except Bytes ServerConfig
  | flag :: value :: args => (applyFlag flag value config).bind fun config => applyFlags config args
  | [_] => .ok config
  | [] => .ok config

/-- The configuration in front of the clamp. -/
def read (envFile : Bytes) (getenv : Bytes → Option Bytes) (args : List Bytes) :
    Except Bytes ServerConfig := do
  let config ← fromEnv (mergeEnv getenv (parseEnvFile envFile)) {}
  applyFlags config args

def clampThreads (config : ServerConfig) : ServerConfig :=
  if config.threads < 1 then { config with threads := 1 } else config

/-- The loop that `main` makes: any mode but `reactor` is `pool`. -/
def chooseMode (config : ServerConfig) : ServerConfig :=
  if config.mode = ascii "reactor" then config else { config with mode := ascii "pool" }

/-- What the event loop is made with. -/
def load (envFile : Bytes) (getenv : Bytes → Option Bytes) (args : List Bytes) :
    Except Bytes ServerConfig :=
  (read envFile getenv args).map fun config => config.clampThreads.chooseMode

end ServerConfig

end WebServer
