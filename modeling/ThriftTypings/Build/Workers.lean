import ThriftTypings.Build.Fault

/-
  This file defines how many workers a build has.
-/

namespace ThriftTypings

-- Workers

/-
  The number of workers by default: what the setting says,
  or the number of processors if there is no setting. At
  least one processor is assumed.
-/
def defaultWorkers
    (setting : Option Text)
    (processors : Option Int) : Except BuildFault Int :=
  let value := Text.strip (setting.getD [])
  if value.isEmpty then
    match processors with
    | none => .ok 1
    | some count => .ok (if count = 0 then 1 else count)
  else
    match Text.toInteger value with
    | .error _ => .error (.workersSetting value)
    | .ok count =>
        if count < 1 then .error (.workersSetting value)
        else .ok count

/-
  The number of workers of a build: what is asked for, or
  the default. At least one is needed.
-/
def workerCount
    (argument : Option Int)
    (setting : Option Text)
    (processors : Option Int) : Except BuildFault Int :=
  match argument.elim (defaultWorkers setting processors) .ok with
  | .error fault => .error fault
  | .ok count =>
      if count < 1 then .error (.workersArgument count)
      else .ok count

end ThriftTypings
