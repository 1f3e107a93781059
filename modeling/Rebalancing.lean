import Rebalancing.Conic.FirstOrder
import Rebalancing.Override
import Rebalancing.Proofs.Advance
import Rebalancing.Proofs.CovarianceForm
import Rebalancing.Proofs.FirstFault
import Rebalancing.Proofs.GrowthGuarantee
import Rebalancing.Proofs.GrowthTree.Greatest
import Rebalancing.Proofs.GrowthTree.Layout
import Rebalancing.Proofs.Optimality
import Rebalancing.Proofs.Override
import Rebalancing.Proofs.RiskGap
import Rebalancing.Proofs.RiskSensitivity
import Rebalancing.Proofs.SpecialAnswer
import Rebalancing.Proofs.SpecialMean
import Rebalancing.Proofs.SymmetricPart
import Rebalancing.Proofs.Tolerances
import Rebalancing.Proofs.TradeProgram.Certificates
import Rebalancing.Proofs.TradeProgram.Grouping
import Rebalancing.Proofs.TradeProgram.Magnitudes
import Rebalancing.Proofs.TradeProgram.Methods
