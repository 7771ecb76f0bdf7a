import BuiltinActors.Address
import BuiltinActors.Multisig.State
import BuiltinActors.Multisig.Vesting
import BuiltinActors.Multisig.Overflow
import BuiltinActors.Multisig.Purge
import BuiltinActors.Init.Testing
import BuiltinActors.Power.State
import BuiltinActors.Power.Actor
import BuiltinActors.Power.Frame
import BuiltinActors.Power.Tick
import BuiltinActors.Power.CronQueue
import BuiltinActors.Power.Claims
import BuiltinActors.Power.Accounting
import BuiltinActors.Power.FailedMiners
