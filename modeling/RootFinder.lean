import RootFinder.Main
import RootFinder.Proofs.Atomicity
import RootFinder.Proofs.Retry
import RootFinder.Proofs.Consistency
import RootFinder.Proofs.PlainLoop
import RootFinder.Proofs.Purity
import RootFinder.Proofs.Restart
import RootFinder.Proofs.Success
import RootFinder.Proofs.Differencing
import RootFinder.Proofs.Singularity
import RootFinder.Proofs.Upkeep
import RootFinder.Proofs.Radius
import RootFinder.Proofs.RefreshPolicy
import RootFinder.Proofs.Budget
import RootFinder.Proofs.Exact.Termination
import RootFinder.Proofs.Exact.Secant
import RootFinder.Proofs.Accounting
import RootFinder.Proofs.Exact.Units
import RootFinder.Proofs.Observer
import RootFinder.Proofs.Exact.ChangeOfUnits
import RootFinder.Proofs.Exact.Rescaling
import RootFinder.Proofs.Exact.CauchyDecrease
import RootFinder.Proofs.Tracing
import RootFinder.Proofs.InPlace.Restarts
import RootFinder.Proofs.ForwardDifferences
import RootFinder.Proofs.Exact.Solving
import RootFinder.Proofs.TraceNumbers
