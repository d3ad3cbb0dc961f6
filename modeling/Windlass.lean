import Windlass.GuardStored
import Windlass.RepairSound
import Windlass.WakeSound
import Windlass.StopSound
import Windlass.ReconcileSound
import Windlass.OwnerSound
import Windlass.IndexSound
import Windlass.PreferencesSound
import Windlass.SettingSound
import Windlass.PauseSound
import Windlass.OutboxSound
import Windlass.HistorySound
import Windlass.IngressSound
import Windlass.RotationSound
import Windlass.FailoverSound
import Windlass.IntegrationSound
import Windlass.StaleSound
import Windlass.PortSound
import Windlass.Mirror
import Windlass.SyncSound
import Windlass.ReserveSound
import Windlass.Decimal
import Windlass.Scan
import Windlass.TorrentFile
import Windlass.TorrentSound
import Windlass.PagingSound
import Windlass.Sqlite
import Windlass.Codec
import Windlass.CodecSound
import Windlass.DurableSound
import Windlass.HistoryPage
import Windlass.HistoryPageSound
import Windlass.HostGuard
import Windlass.NatPmp
import Windlass.ConditionSound
import Windlass.UpgradeSound
import Windlass.NoticeStored
import Windlass.RegistryStored
import Windlass.ObjectsSound
import Windlass.ShellSound
