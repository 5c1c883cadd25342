import DacpacCompare.Python
import DacpacCompare.Repr
import DacpacCompare.ElementTree
import DacpacCompare.SimpleXml
import DacpacCompare.SimpleXml.Soundness
import DacpacCompare.Model.Read
import DacpacCompare.Model.Identity
import DacpacCompare.Model.Diff
import DacpacCompare.Model.DiffSpec
import DacpacCompare.Model.Header
import DacpacCompare.Model.Compare
import DacpacCompare.Model.WellFormed
import DacpacCompare.Model.Soundness
import DacpacCompare.Model.Cosmetic
import DacpacCompare.Model.Invariance
import DacpacCompare.Model.Fingerprint
import DacpacCompare.Main
import DacpacCompare.Transitivity
import DacpacCompare.Frame
import DacpacCompare.Rewrite
