import TaskBulletin.Main
import TaskBulletin.Message
import TaskBulletin.Proofs.EscapedOnce
import TaskBulletin.Proofs.Token
import TaskBulletin.Proofs.Meaning
import TaskBulletin.Proofs.Leftover
import TaskBulletin.Proofs.WholeTag
import TaskBulletin.Proofs.Excerpt
import TaskBulletin.Proofs.SelfNesting
import TaskBulletin.Proofs.Asking
import TaskBulletin.Proofs.DigitRuns
import TaskBulletin.Proofs.Fragment
import TaskBulletin.Proofs.PlainBody
import TaskBulletin.Proofs.LineEnds
import TaskBulletin.Proofs.CallEnding
import TaskBulletin.Proofs.TokenSecrecy
import TaskBulletin.Proofs.Recut
import TaskBulletin.Proofs.ReferencePasses
import TaskBulletin.Proofs.Reports
import TaskBulletin.Proofs.RoundTrip
import TaskBulletin.Proofs.BlockLines
import TaskBulletin.Proofs.StyleOrder
import TaskBulletin.Proofs.ReadBack
import TaskBulletin.Proofs.FileAnswer
import TaskBulletin.Proofs.SessionUse
import TaskBulletin.Proofs.IsoWeek
import TaskBulletin.Proofs.MomentSpelling
import TaskBulletin.Proofs.Executors
import TaskBulletin.Proofs.MessageText
import TaskBulletin.Proofs.PortalAddress
import TaskBulletin.Proofs.ShownBody
import TaskBulletin.Proofs.NormalSpacing
import TaskBulletin.Proofs.UserNumber
