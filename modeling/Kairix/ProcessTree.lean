import Kairix.LabelledRun

/-!
# The process tree

Processes have a parent pointer and a list of children.  Agents are the threads and
signal senders which run a call: a `clone` builds a process and lists it in a second
section, and re-parenting takes the list of the old parent, visits the children one by
one, and fills the lists in further sections.  What an agent has taken out of a list or
not listed yet is in its hands.
-/

namespace Kairix.ProcessTree

open LabelledRun

/-- A process is `published` when its creator has listed it.  `threads` counts its live
threads and `cloning` those of them which run `clone`; `exiting` tells that the last
thread has still to re-parent, and `finishing` that its exit is not over. -/
structure Process (π : Type*) where
  born : Bool
  published : Bool
  parent : Option π
  children : List π
  isZombie : Bool
  threads : ℕ
  cloning : ℕ
  exiting : Bool
  finishing : Bool
  reaped : Bool
  deriving DecidableEq

def Process.unborn {π : Type*} : Process π :=
  ⟨false, false, none, [], false, 0, 0, false, false, false⟩

def Process.fresh {π : Type*} (parent : Option π) : Process π :=
  { Process.unborn with born := true, parent := parent, threads := 1 }

inductive Reason where
  | exit
  | signal
  | reap
  deriving DecidableEq, Repr

inductive Activity (π : Type*) where
  | idle
  | cloning (caller child : π) (owner : Option π)
  | taking (reason : Reason) (old : π)
  | visiting (reason : Reason) (old : π) (todo adopted remaining : List π)
  | returning (reason : Reason) (old : π) (adopted remaining : List π)
  | giving (reason : Reason) (old : π) (adopted : List π)
  | settling (reason : Reason) (old : π)
  deriving DecidableEq

structure TreeConfig (π α : Type*) where
  process : π → Process π
  agent : α → Activity π

inductive TreeStep (π α : Type*) where
  | clone (agent : α) (caller child : π) (cloneParent upgraded : Bool)
  | list (agent : α)
  | spawn (target : π)
  | exitGroup (target : π)
  | signal (agent : α) (target : π)
  | leave (agent : α) (target : π)
  | take (agent : α)
  | visit (agent : α)
  | giveBack (agent : α)
  | give (agent : α)
  | settle (agent : α)
  | finish (target : π)
  | reap (agent : α) (parent child : π)
  deriving DecidableEq

namespace TreeConfig

variable {π α : Type*} [DecidableEq π] [DecidableEq α]

variable (config s : TreeConfig π α) (agent : α)

def setProcess (target : π) (process : Process π) : TreeConfig π α :=
  { config with process := Function.update config.process target process }

def setAgent (activity : Activity π) : TreeConfig π α :=
  { config with agent := Function.update config.agent agent activity }

def setChildren (target : π) (children : List π) : TreeConfig π α :=
  config.setProcess target { config.process target with children := children }

def start (root : π) : TreeConfig π α where
  process := Function.update (fun _ => .unborn) root { Process.fresh none with published := true }
  agent _ := .idle

/-- The list for a new process: `CLONE_PARENT` needs a parent which still exists. -/
def cloneOwner (caller : π) (cloneParent upgraded : Bool) : Option π :=
  if cloneParent = true then
    (config.process caller).parent.filter fun parent =>
      !(config.process parent).reaped || upgraded
  else some caller

/-- The first sections of `clone` without `CLONE_THREAD`. -/
def clone (caller child : π) (cloneParent upgraded : Bool) : Option (TreeConfig π α) :=
  let process := config.process caller
  if config.agent agent = .idle ∧ process.published = true ∧ process.cloning < process.threads ∧
      (config.process child).born = false then
    let parent := if cloneParent = true then process.parent else some caller
    some (((config.setProcess caller { process with cloning := process.cloning + 1 }).setProcess
      child (.fresh parent)).setAgent agent
        (.cloning caller child (config.cloneOwner caller cloneParent upgraded)))
  else none

def push (child : π) : Option π → TreeConfig π α
  | none => config
  | some owner => config.setChildren owner ((config.process owner).children ++ [child])

/-- The section of `clone` which lists the new process. -/
def list : Option (TreeConfig π α) :=
  match config.agent agent with
  | .cloning caller child owner =>
    let pushed := config.push child owner
    let returned := pushed.setProcess caller
      { pushed.process caller with cloning := (pushed.process caller).cloning - 1 }
    some ((returned.setProcess child { returned.process child with published := true }).setAgent
      agent .idle)
  | _ => none

/-- `clone` with `CLONE_THREAD`, and `thread_create`: a live thread adds one to its
process, also to a zombie. -/
def spawn (target : π) : Option (TreeConfig π α) :=
  let process := config.process target
  if process.published = true ∧ process.cloning < process.threads then
    some (config.setProcess target { process with threads := process.threads + 1 })
  else none

def exitGroup (target : π) : Option (TreeConfig π α) :=
  let process := config.process target
  if process.published = true ∧ process.threads ≠ 0 then
    some (config.setProcess target { process with isZombie := true })
  else none

def signal (config : TreeConfig π α) (root : π) (agent : α) (target : π) :
    Option (TreeConfig π α) :=
  let process := config.process target
  if config.agent agent = .idle ∧ process.published = true ∧ process.reaped = false ∧
      process.isZombie = false then
    let marked := config.setProcess target { process with isZombie := true }
    some (if target = root then marked else marked.setAgent agent (.taking .signal target))
  else none

/-- A thread leaves the process; the last one takes the process with it unless the
group is dead already. -/
def leave (root : π) (agent : α) (target : π) : Option (TreeConfig π α) :=
  let process := config.process target
  if config.agent agent = .idle ∧ process.published = true ∧
      process.cloning < process.threads then
    let left := { process with threads := process.threads - 1 }
    if process.threads ≠ 1 then some (config.setProcess target left)
    else if process.isZombie = true ∨ target = root then
      some (config.setProcess target { left with isZombie := true, finishing := true })
    else
      some ((config.setProcess target
        { left with isZombie := true, finishing := true, exiting := true }).setAgent agent
          (.taking .exit target))
  else none

def take : Option (TreeConfig π α) :=
  match config.agent agent with
  | .taking reason old =>
    let children := (config.process old).children
    some ((config.setChildren old []).setAgent agent
      (if children = [] then .settling reason old else .visiting reason old children [] []))
  | _ => none

/-- Visit one child: it is adopted if its parent pointer names the old parent. -/
def visit (root : π) (agent : α) : Option (TreeConfig π α) :=
  match config.agent agent with
  | .visiting reason old (child :: todo) adopted remaining =>
    let process := config.process child
    if process.parent = some old then
      some ((config.setProcess child { process with parent := some root }).setAgent agent
        (.visiting reason old todo (adopted ++ [child]) remaining))
    else
      some (config.setAgent agent (.visiting reason old todo adopted (remaining ++ [child])))
  | .visiting reason old [] adopted remaining =>
    some (config.setAgent agent (.returning reason old adopted remaining))
  | _ => none

def giveBack : Option (TreeConfig π α) :=
  match config.agent agent with
  | .returning reason old adopted remaining =>
    some ((config.setChildren old ((config.process old).children ++ remaining)).setAgent agent
      (.giving reason old adopted))
  | _ => none

/-- The adopted children go to the list of the init process. -/
def give (root : π) (agent : α) : Option (TreeConfig π α) :=
  match config.agent agent with
  | .giving reason old adopted =>
    some ((config.setChildren root ((config.process root).children ++ adopted)).setAgent agent
      (.settling reason old))
  | _ => none

/-- The caller of the re-parenting goes on; `reap_zombie_child` clears what is left. -/
def settle : Option (TreeConfig π α) :=
  match config.agent agent with
  | .settling .exit old =>
    some ((config.setProcess old { config.process old with exiting := false }).setAgent agent
      .idle)
  | .settling .signal _ => some (config.setAgent agent .idle)
  | .settling .reap old =>
    some ((config.setProcess old
      { config.process old with children := [], reaped := true }).setAgent agent .idle)
  | _ => none

def finish (target : π) : Option (TreeConfig π α) :=
  let process := config.process target
  if process.finishing = true ∧ process.exiting = false then
    some (config.setProcess target { process with finishing := false })
  else none

/-- `wait4` and `waitid` remove a child which has exited and reap it. -/
def reap (config : TreeConfig π α) (agent : α) (parent child : π) : Option (TreeConfig π α) :=
  let process := config.process child
  if config.agent agent = .idle ∧ child ∈ (config.process parent).children ∧
      process.isZombie = true ∧ process.threads = 0 ∧ process.finishing = false then
    some ((config.setChildren parent ((config.process parent).children.erase child)).setAgent
      agent (.taking .reap child))
  else none

def next (root : π) (config : TreeConfig π α) : TreeStep π α → Option (TreeConfig π α)
  | .clone agent caller child cloneParent upgraded =>
    config.clone agent caller child cloneParent upgraded
  | .list agent => config.list agent
  | .spawn target => config.spawn target
  | .exitGroup target => config.exitGroup target
  | .signal agent target => config.signal root agent target
  | .leave agent target => config.leave root agent target
  | .take agent => config.take agent
  | .visit agent => config.visit root agent
  | .giveBack agent => config.giveBack agent
  | .give agent => config.give root agent
  | .settle agent => config.settle agent
  | .finish target => config.finish target
  | .reap agent parent child => config.reap agent parent child

end TreeConfig

end Kairix.ProcessTree
